import TreeLowering.Proofs.WrittenSegment
set_option autoImplicit false

/-!
# Proofs: raw chains

Each segment of a chain is written raw or with arguments on its own account.  So a
chain without static segments is raw as a whole exactly when every generic segment
in it is forced raw, and one that is forced raw does not take the others with it.
-/

namespace TreeLowering

namespace TypeLowering

variable {m : Model} {lower : Ty → TypeLowering Target.Ty} {ctx : Context} {t : Ty}
  {u : Target.Ty}

/-- The segments whose arguments are looked at: the innermost one alone where the
simple name is asked for. -/
def namedSegments (ctx : Context) (t : Ty) : List Ty :=
  if ctx.simpleName then [t] else t.segments

/-- Every generic segment is forced raw. -/
def AllForcedRaw (m : Model) (lower : Ty → TypeLowering Target.Ty) (ctx : Context)
    (segments : List Ty) : Prop :=
  ∀ s ∈ segments, isGenericSegment m s = true → ForcedRaw m lower ctx s

theorem forall_args_eq_nil_iff {xs : List (Ty × Nat)} {written : List Target.Segment}
    (h : List.Forall₂
      (fun x w => w.args ≠ [] ↔ isGenericSegment m x.1 = true ∧ ¬ ForcedRaw m lower ctx x.1)
      xs written) :
    (∀ w ∈ written, w.args = []) ↔ AllForcedRaw m lower ctx (xs.map Prod.fst) := by
  induction h with
  | nil => simp [AllForcedRaw]
  | @cons x w _ _ hfirst _ ih =>
    have hraw : w.args = [] ↔ (isGenericSegment m x.1 = true → ForcedRaw m lower ctx x.1) := by
      rw [← not_iff_not, Classical.not_imp]
      exact hfirst
    rw [AllForcedRaw, List.map_cons, List.forall_mem_cons, List.forall_mem_cons, ih, hraw]
    exact Iff.rfl

theorem chainType_raw_iff {c : Chain} {segments : List Ty} (hfirst : c.firstWithArgs = 0)
    (hsegments : ∀ s ∈ segments, s.decl?.isSome = true)
    (hcallable : 1 < segments.length → c.whole.isCallable = false)
    (h : (chainType m lower ctx c 0 .erroneous segments.reverse).answer? = some u) :
    (∀ w ∈ u.segments, w.args = []) ↔ AllForcedRaw m lower ctx segments := by
  have hwritten := chainType_written hsegments hcallable h
  rw [hfirst] at hwritten
  rw [forall_args_eq_nil_iff (hwritten.imp fun x w hw => by simpa using hw.2), List.zipIdx_map_fst]
  simp only [AllForcedRaw, List.mem_reverse]

theorem firstWithArgs_eq_zero (hstatic : ∀ s ∈ t.segments, isStaticSegment m s = false) :
    (Chain.of m t).firstWithArgs = 0 := by
  rw [firstWithArgs_eq, innermostStatic, Nat.findGreatest_eq_zero_iff]
  rintro i _ _ ⟨s, hs, hs'⟩
  rw [hstatic s (List.mem_reverse.mp (List.mem_of_getElem? hs))] at hs'
  contradiction

/-- A generic type that is not lifted is raw as a whole when all its generic
segments are forced raw. -/
theorem classType_raw_iff (hgeneric : Generic m ctx t)
    (hsegments : ∀ s ∈ t.segments, s.decl?.isSome = true)
    (hstatic : ∀ s ∈ t.segments, isStaticSegment m s = false)
    (hlifted : isLifted m t = false) (h : (classType m lower ctx t).answer? = some u) :
    (∀ w ∈ u.segments, w.args = []) ↔ AllForcedRaw m lower ctx (namedSegments ctx t) := by
  have hsimple : t.simplify = t := by
    cases t with
    | nominal d as o hint => exact simplify_eq hgeneric.present
    | union _ | inter _ | param _ | bottom | error => simp [Ty.segments, Ty.decl?] at hsegments
  have hany : t.segments.any (fun s => !s.args.isEmpty) = true := by
    simpa [List.any_eq_true] using hgeneric.args
  unfold classType at h
  simp only [hsimple, hgeneric.notRaw, hany, hlifted, Bool.not_false, Bool.and_self, if_true,
    Bool.false_eq_true, if_false] at h
  unfold namedSegments
  split at h
  · rename_i hname
    rw [if_pos hname]
    rw [← chainType_singleton] at h
    exact chainType_raw_iff rfl
      (List.forall_mem_singleton.mpr (hsegments t (by cases t <;> simp [Ty.segments]))) (by simp) h
  · rename_i hname
    rw [if_neg hname]
    exact chainType_raw_iff (firstWithArgs_eq_zero hstatic) hsegments
      (not_callable_of_not_lifted hlifted) h

/-! ## Whole types -/

section

variable {d : DeclId} {as : List Ty} {o : Option Ty} {hint : Option Hint}

theorem isName_of_classType (hpresent : (Ty.nominal d as o hint).isOptional = false)
    (hbare : ctx.raw = true ∨ ∀ s ∈ (Ty.nominal d as o hint).segments, s.args = [])
    (h : (classType m lower ctx (.nominal d as o hint)).answer? = some u) : u.isName = true := by
  rw [classType_eq_bareType hpresent hbare] at h
  exact isName_of_bareType h

theorem writtenType_of_generic (hgeneric : Generic m ctx (.nominal d as o hint)) :
    writtenType m lower ctx (.nominal d as o hint) =
      classType m lower ctx (.nominal d as o hint) := by
  have hcomposite : (Ty.nominal d as o hint).simplify.isComposite = false := by
    rw [simplify_eq hgeneric.present]
    rfl
  have hexception : (Ty.nominal d as o hint).erasesToException = false := by
    refine Bool.eq_false_iff.mpr fun hexception => ?_
    rw [Ty.erasesToException, simplify_eq hgeneric.present] at hexception
    exact not_generic (args_of_isExactly hexception) hgeneric
  unfold writtenType
  rw [hcomposite, hexception, hgeneric.notBoolean, if_neg (by simp), if_neg (by simp)]
  split
  · rename_i hposition
    rw [Bool.and_eq_true] at hposition
    cases hraw : rawForm? m ctx.small (.nominal d as o hint) with
    | some raw => exact absurd hgeneric (not_generic_of_rawForm? hposition.1 hraw)
    | none => rfl
  · rfl

theorem isName_of_not_generic (hpresent : (Ty.nominal d as o hint).isOptional = false)
    (hgeneric : ¬ Generic m ctx (.nominal d as o hint))
    (h : (writtenType m lower ctx (.nominal d as o hint)).answer? = some u) :
    u.isName = true := by
  -- what is left of being generic, once the type is written as a class
  have hbare : m.isBoolean (.nominal d as o hint) = false →
      (ctx.allowsPrimitives = true → hint ≠ some .platformString) →
      ctx.raw = true ∨ ∀ s ∈ (Ty.nominal d as o hint).segments, s.args = [] := by
    intro hboolean hstring
    by_contra hargs
    push Not at hargs
    exact hgeneric ⟨by simpa using hargs.1, hargs.2, hpresent, hboolean, hstring⟩
  unfold writtenType at h
  rw [simplify_eq hpresent, hpresent] at h
  rw [if_neg (by simp [Ty.isComposite])] at h
  split at h
  · cases h
    rfl
  split at h
  · split at h
    · rename_i hraw
      cases h
      exact isName_of_rawForm? hraw
    · rename_i hraw
      refine isName_of_classType hpresent (hbare (isBoolean_of_rawForm?_eq_none hraw) ?_) h
      rintro _ rfl
      have hplatform := isPlatformString_of_rawForm?_eq_none hraw
      rw [Ty.isPlatformString, nonNull_nominal hpresent] at hplatform
      contradiction
  split at h
  · exact isName_of_classType rfl (.inr (by decide)) h
  · rename_i hposition hboolean
    have hparam : (Ty.nominal d as o hint).isTypeParameter = false := by
      rw [Ty.isTypeParameter, nonNull_nominal hpresent]
      rfl
    rw [hparam] at hboolean
    exact isName_of_classType hpresent
      (hbare (by simpa using hboolean) fun hallowed => by simp [hallowed] at hposition) h

theorem resolveBound_nominal :
    resolveBound m ctx (Ty.nominal d as o hint).collapse = .nominal d as o hint :=
  resolveBound_of_not_param fun _ => rfl

theorem step_of_generic (hgeneric : Generic m ctx (.nominal d as o hint)) :
    step m lower ctx (.nominal d as o hint) =
      some <$> classType m lower ctx (.nominal d as o hint) := by
  have herases : m.erasesToObject (.nominal d as o hint) = false :=
    Bool.eq_false_iff.mpr fun herases => not_generic_of_erases herases hgeneric
  rw [step_of_not_erases (by rintro ⟨⟩) (by rwa [resolveBound_nominal]), resolveBound_nominal,
    writtenType_of_generic hgeneric]

theorem isName_of_step (hgeneric : ¬ Generic m ctx (.nominal d as o hint))
    (h : (step m lower ctx (.nominal d as o hint)).answer? = some (some u)) :
    u.isName = true := by
  cases herases : m.erasesToObject (.nominal d as o hint) with
  | true =>
    rw [step_of_erases (by rwa [resolveBound_nominal])] at h
    split at h <;> cases h
    rfl
  | false =>
    have hpresent : (Ty.nominal d as o hint).isOptional = false := by
      refine Bool.eq_false_iff.mpr fun hoptional => ?_
      rw [erases_of_isOptional hoptional] at herases
      contradiction
    rw [step_of_not_erases (by rintro ⟨⟩) (by rwa [resolveBound_nominal]), resolveBound_nominal,
      answer?_map, Option.map_eq_some_iff] at h
    obtain ⟨_, hwritten, hu⟩ := h
    cases hu
    exact isName_of_not_generic hpresent hgeneric hwritten

end

end TypeLowering

namespace Env

open TypeLowering

/-- A class whose chain has no static segment is written without any arguments
exactly when all generic segments of it are forced raw, each by its own arguments;
only a type that is not generic at all is a name anyway. -/
theorem lowerType?_raw_iff (env : Env) {ctx : Context} {t : Ty}
    (hsegments : ∀ s ∈ t.segments, s.decl?.isSome = true)
    (hstatic : ∀ s ∈ t.segments, isStaticSegment env.model s = false)
    (hclass : ∀ d ∈ t.decl?, (env.model.decl d).isInterface = false) {u : Target.Ty}
    (h : (env.lowerType? t ctx).answer? = some (some u)) :
    (∀ w ∈ u.segments, w.args = []) ↔
      (Generic env.model ctx t →
        AllForcedRaw env.model (argumentType env env.depth) (adjust env.config ctx)
          (namedSegments ctx t)) := by
  have hnamed : namedSegments (adjust env.config ctx) t = namedSegments ctx t := by
    rw [adjust_with_small]
    rfl
  rw [← @generic_adjust env.model env.config ctx t, ← hnamed]
  cases t with
  | nominal d as o hint =>
    by_cases hgeneric : Generic env.model (adjust env.config ctx) (.nominal d as o hint)
    · rw [lowerType?, step_of_generic hgeneric, answer?_map, Option.map_eq_some_iff] at h
      obtain ⟨_, hwritten, hu⟩ := h
      cases hu
      rw [classType_raw_iff hgeneric hsegments hstatic (not_lifted_of_class hclass) hwritten]
      exact ⟨fun hraw _ => hraw, fun hraw => hraw hgeneric⟩
    · exact iff_of_true (Target.Ty.args_of_isName (isName_of_step hgeneric h))
        fun hwritten => absurd hwritten hgeneric
  | union _ | inter _ | param _ | bottom | error => simp [Ty.segments, Ty.decl?] at hsegments

/-- A class `A<T>` and a class `B<S>` in it. -/
def innerClasses : Model where
  decls := #[
    { Declaration.bare "A" .cls "demo" none with typeParams := [⟨10⟩] },
    { Declaration.bare "B" .cls "demo" (some ⟨22⟩) with typeParams := [⟨11⟩] }]
  params := #[⟨"T", .invariant, [], ⟨22⟩, false⟩, ⟨"S", .invariant, [], ⟨23⟩, false⟩]

/-- The type of `innerClasses` with these arguments. -/
def innerType (outer inner : Ty) : Ty := .nominal ⟨23⟩ [inner] (some (.of ⟨22⟩ [outer])) none

/-- The type of nothing as the argument of both classes makes both raw. -/
theorem bottomArguments_raw :
    (∀ s ∈ (innerType .bottom .bottom).segments, s.decl?.isSome = true) ∧
      (∀ s ∈ (innerType .bottom .bottom).segments, isStaticSegment innerClasses s = false) ∧
      (∀ d ∈ (innerType .bottom .bottom).decl?, (innerClasses.decl d).isInterface = false) ∧
      ∃ u, ((Env.of innerClasses .standard).lowerType? (innerType .bottom .bottom)
          .inCreation).answer? = some (some u) ∧
        u.segments.length = 2 ∧ ∀ w ∈ u.segments, w.args = [] := by
  have hsegments : ∀ s ∈ (innerType .bottom .bottom).segments, s.decl?.isSome = true := by decide
  have hstatic : ∀ s ∈ (innerType .bottom .bottom).segments,
      isStaticSegment innerClasses s = false := by decide
  have hclass : ∀ d ∈ (innerType .bottom .bottom).decl?,
      (innerClasses.decl d).isInterface = false := by decide
  have hlowered : ((Env.of innerClasses .standard).lowerType? (innerType .bottom .bottom)
      .inCreation).answer? = some (some (.member (.cls "demo.A") "B")) := rfl
  have hforced : AllForcedRaw innerClasses (argumentType (Env.of innerClasses .standard) ample)
      (adjust .standard .inCreation) (namedSegments .inCreation (innerType .bottom .bottom)) := by
    intro s hs _
    rcases List.mem_pair.mp hs with rfl | rfl
    · exact Eq.refl (some none)
    · exact Eq.refl (some none)
  exact ⟨hsegments, hstatic, hclass, _, hlowered, rfl,
    (lowerType?_raw_iff (Env.of innerClasses .standard) hsegments hstatic hclass hlowered).mpr
      fun _ => hforced⟩

/-- The type of nothing as the argument of the inner class makes that class raw and
leaves the outer one its argument: `demo.A<vela.language.String>.B`. -/
theorem outerArgument_kept :
    (∀ s ∈ (innerType Language.stringTy .bottom).segments, s.decl?.isSome = true) ∧
      (∀ s ∈ (innerType Language.stringTy .bottom).segments,
        isStaticSegment innerClasses s = false) ∧
      (∀ d ∈ (innerType Language.stringTy .bottom).decl?,
        (innerClasses.decl d).isInterface = false) ∧
      isGenericSegment innerClasses (innerType Language.stringTy .bottom) = true ∧
      ForcedRaw innerClasses (argumentType (Env.of innerClasses .standard) ample)
        (adjust .standard .inCreation) (innerType Language.stringTy .bottom) ∧
      ((Env.of innerClasses .standard).lowerType? (innerType Language.stringTy .bottom)
          .inCreation).answer? =
        some (some (.member (.apply (.cls "demo.A") [.cls "vela.language.String"]) "B")) :=
  ⟨by decide, by decide, by decide, rfl, rfl, rfl⟩

end Env

end TreeLowering
