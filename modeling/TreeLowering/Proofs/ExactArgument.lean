import TreeLowering.Proofs.CallableHeader
import TreeLowering.Proofs.LanguageModule
import TreeLowering.Proofs.SegmentPlan
set_option autoImplicit false

/-!
# Proofs: exact arguments

The target takes no wildcard where an object is created or a supertype is named.
In a clause that names supertypes there is none.  Where an object is created, the
type of everything still becomes a wildcard when its parameter is covariant, and
nothing else does.
-/

namespace TreeLowering

namespace TypeLowering

variable {m : Model} {lower : Ty → TypeLowering Target.Ty} {ctx : Context} {t : Ty}
  {u : Target.Ty}

theorem isBoolean_void (m : Model) : m.isBoolean Language.voidTy = false :=
  Model.isBoolean_eq_false Model.not_boolean_void

theorem widenBoolean_eq_void_iff :
    ArgumentView.widenBoolean m t = Language.voidTy ↔ t = Language.voidTy := by
  constructor
  · intro h
    rcases Model.widenBoolean_cases m t with heq | heq
    · rwa [heq] at h
    · rw [heq] at h
      contradiction
  · rintro rfl
    simp [ArgumentView.widenBoolean, isBoolean_void]

/-- An argument is seen as the type of everything when it is that type, without
its absent value. -/
theorem view_eq_void_iff {s : Ty} (h : ArgumentView.of m ctx t = .as s) :
    s = Language.voidTy ↔ t.asArgument = Language.voidTy := by
  rcases view_cases h with ⟨hcomposite, shape, hshape, rfl⟩ | ⟨_, rfl⟩
  · obtain ⟨as, o, hint, rfl⟩ := Ty.isOf_iff.mp (Model.iterableShape?_isOf hshape)
    rw [Model.widenBoolean_shape hshape]
    refine iff_of_false (by rintro ⟨⟩) fun hvoid => ?_
    rw [hvoid] at hcomposite
    contradiction
  · exact widenBoolean_eq_void_iff

/-- Where a wildcard will not do, there is one all the same when the condition
holds, and none else. -/
def ExactUnless (P : Prop) (a : Target.Ty) : Prop :=
  (P → a = .anyType) ∧ (¬ P → a.isWildcard = false)

theorem ExactUnless.congr {P Q : Prop} {a : Target.Ty} (h : ExactUnless P a) (hiff : P ↔ Q) :
    ExactUnless Q a :=
  ⟨fun hq => h.1 (hiff.mpr hq), fun hq => h.2 fun hp => hq (hiff.mp hp)⟩

/-- The argument is written as an unbounded wildcard although its position takes
none. -/
def WrittenOpen (m : Model) (ctx : Context) (x : ParamId × Option Ty) : Prop :=
  ctx.inSupertypeClause = false ∧ (m.param x.1).variance = .covariant ∧
    ∃ t ∈ x.2, t.asArgument = Language.voidTy

section

variable (hlower : ∀ t u, (lower t).answer? = some u → u.isWildcard = false)
  (hctx : ctx.creating = true ∨ ctx.inSupertypeClause = true)

include hlower hctx

theorem viewedArgument_exact {p : TypeParam} {s : Ty} {a : Target.Ty}
    (h : (viewedArgument lower ctx p s).answer? = some (some a)) :
    ExactUnless (ctx.inSupertypeClause = false ∧ p.variance = .covariant ∧ s = Language.voidTy)
      a := by
  cases writtenView_of_answer h with
  | everything hs =>
    unfold voidArgument ExactUnless
    cases hclause : ctx.inSupertypeClause with
    | true => simp [Target.Ty.object, Target.Ty.isWildcard]
    | false => cases p.variance <;> simp [hs, Target.Ty.object, Target.Ty.isWildcard]
  | bound hs _ _ _ ha =>
    refine ⟨fun hopen => ?_, fun _ => hlower _ _ ha⟩
    rw [hopen.2.2] at hs
    contradiction
  | object _ _ hclause => exact ⟨fun hopen => absurd hclause (by simp [hopen.1]), fun _ => rfl⟩
  | anyType _ hcreating hclause =>
    exact absurd hctx (by simp [hcreating, hclause])
  | exact hs _ ha => exact ⟨fun hopen => absurd hopen.2.2 hs, fun _ => hlower _ _ ha⟩
  | wildcard hs hclause ha =>
    -- without a clause an object is created, and the argument stays exact
    have hcreating := hctx.resolve_right (by simp [hclause])
    unfold wildcard
    rw [if_pos hcreating]
    exact ⟨fun hopen => absurd hopen.2.2 hs, fun _ => hlower _ _ ha⟩

theorem argument_exact {owner : Ty} {x : ParamId × Option Ty} {a : Target.Ty}
    (h : (argument m lower ctx owner x.1 x.2).answer? = some (some a)) :
    ExactUnless (WrittenOpen m ctx x) a := by
  obtain ⟨p, arg⟩ := x
  cases arg with
  | none =>
    cases h
    exact ⟨fun hopen => by simpa using hopen.2.2, fun _ => rfl⟩
  | some t =>
    simp only [argument] at h
    split at h
    · cases h
    · rename_i s hview
      refine (viewedArgument_exact hlower hctx h).congr ?_
      simp [WrittenOpen, view_eq_void_iff hview]

end

/-- Each segment is raw or has exact arguments, but for those that are left open. -/
theorem classType_exact (hlower : ∀ t u, (lower t).answer? = some u → u.isWildcard = false)
    (hctx : ctx.creating = true ∨ ctx.inSupertypeClause = true)
    (h : (classType m lower ctx t).answer? = some u) :
    List.Forall₂
      (fun plan written => written.args = [] ∨
        List.Forall₂ (fun x a => ExactUnless (WrittenOpen m ctx x) a) plan.pairs written.args)
      (classPlan m ctx t.simplify) u.segments :=
  (classType_fills h).imp fun _ _ hfills => hfills.args.imp_right fun hargs =>
    hargs.imp fun _ _ hwritten => argument_exact hlower hctx hwritten

end TypeLowering

namespace Env

open TypeLowering

/-- In a clause that names supertypes no argument of a segment is a wildcard.  Where
an object is created, each segment is raw or its arguments are exact, except that
the type of everything is an unbounded wildcard for a covariant parameter. -/
theorem lowerType?_exact (env : Env) {ctx : Context} {t : Ty} {u : Target.Ty}
    (hctx : ctx.creating = true ∨ ctx.inSupertypeClause = true)
    (h : (env.lowerType? t ctx).answer? = some (some u)) :
    (ctx.inSupertypeClause = true → ∀ w ∈ u.segments, ∀ a ∈ w.args, a.isWildcard = false) ∧
      (u.isName = true ∨
        List.Forall₂
          (fun plan written => written.args = [] ∨
            List.Forall₂ (fun x a => ExactUnless (WrittenOpen env.model ctx x) a) plan.pairs
              written.args)
          (classPlan env.model (adjust env.config ctx)
            (shapeOf env.model (resolveBound env.model ctx t.collapse)).simplify) u.segments) := by
  have hopen : ∀ x, WrittenOpen env.model (adjust env.config ctx) x ↔
      WrittenOpen env.model ctx x := by
    intro x
    rw [adjust_with_small]
    rfl
  have hposition : (adjust env.config ctx).creating = true ∨
      (adjust env.config ctx).inSupertypeClause = true := by
    rw [adjust_with_small]
    exact hctx
  rcases step_cases h with hname | hclass
  · refine ⟨fun _ w hw a ha => ?_, .inl hname⟩
    rw [Target.Ty.args_of_isName hname w hw] at ha
    contradiction
  · have hexact := classType_exact (fun _ _ => argumentType_not_wildcard) hposition hclass
    simp only [hopen, resolveBound_adjust] at hexact
    refine ⟨fun hclause w hw a ha => ?_, .inr hexact⟩
    obtain ⟨plan, _, hwritten⟩ := exists_of_forall₂ hexact hw
    rcases hwritten with hraw | hargs
    · rw [hraw] at ha
      contradiction
    · obtain ⟨x, _, hx⟩ := exists_of_forall₂ hargs ha
      exact hx.2 fun hopened => absurd (hclause.symm.trans hopened.1) (by simp)

/-- A class that extends the sequence class of everything names it with the root
object. -/
theorem voidSequence_exact :
    (Context.inExtends.creating = true ∨ Context.inExtends.inSupertypeClause = true) ∧
      ∃ u, ((Env.of .new .standard).lowerType? (.of Language.arraySequence [Language.voidTy])
          .inExtends).answer? = some (some u) ∧
        u.segments = [⟨"vela.language.ArraySequence", [.object]⟩] ∧
        ∀ w ∈ u.segments, ∀ a ∈ w.args, a.isWildcard = false := by
  have hctx : Context.inExtends.creating = true ∨ Context.inExtends.inSupertypeClause = true :=
    .inr rfl
  have hlowered : ((Env.of .new .standard).lowerType? (.of Language.arraySequence [Language.voidTy])
      .inExtends).answer? =
        some (some (.apply (.cls "vela.language.ArraySequence") [.object])) := rfl
  exact ⟨hctx, _, hlowered, rfl,
    (lowerType?_exact (Env.of .new .standard) hctx hlowered).1 rfl⟩

/-- An object of the sequence class of everything is created as
`new vela.language.ArraySequence<?>(..)`. -/
theorem voidSequence_wildcard :
    Context.inCreation.creating = true ∧
      ((Env.of .new .standard).lowerType? (.of Language.arraySequence [Language.voidTy])
          .inCreation).answer? =
        some (some (.apply (.cls "vela.language.ArraySequence") [.anyType])) :=
  ⟨rfl, rfl⟩

end Env

end TreeLowering
