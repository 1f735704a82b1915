import TreeLowering.Proofs.RawForm
import TreeLowering.Proofs.RawSpelling
import TreeLowering.Proofs.TypeGrammar
import Mathlib.Data.List.Forall2
set_option autoImplicit false

/-!
# Proofs: class types in a clause and among arguments

A class type is written in two positions without a primitive form: in the clause
that names an extended class, and as an argument of another type.  The clause
takes the arguments of the class as they are; among arguments they become
wildcards where their parameters vary.

So the two agree only for a class whose written arguments all belong to
parameters that do not vary, and of these arguments some are still told apart:
the type of nothing, and what has no type of its own on the target.  Without
arguments the two part at a platform string, which is a class of its own among
arguments.
-/

namespace TreeLowering

namespace Target.Ty

/-- The type is a wildcard. -/
def isWildcard : Ty → Bool
  | anyType | subtypeOf _ | supertypeOf _ => true
  | _ => false

theorem isWildcard_of_fitsAt {t : Ty} (h : t.FitsAt .whole) : t.isWildcard = false := by
  cases t with
  | anyType | subtypeOf _ | supertypeOf _ => cases h
  | primitive _ | cls _ | member _ _ | apply _ _ | var _ | array _ | erroneous => rfl

theorem applied_inj {base base' : Ty} {args args' : List Ty} (h : args.length = args'.length) :
    base.applied args = base'.applied args' ↔ base = base' ∧ args = args' := by
  cases args with
  | nil =>
    cases args' with
    | nil => simp [applied]
    | cons _ _ => contradiction
  | cons _ _ =>
    cases args' with
    | nil => contradiction
    | cons _ _ => simp [applied]

end Target.Ty

/-! ## What an argument is seen as -/

/-- The type without its absent value, as an argument is looked at. -/
def Ty.asArgument (t : Ty) : Ty :=
  if t.collapse ≠ Language.voidTy && t.collapse.isOptional then t.collapse.nonNull else t.collapse

/-- The type that is written for an argument, where a wildcard would do for what
has no type of its own. -/
def Model.seenArgument (m : Model) (t : Ty) : Ty :=
  ArgumentView.widenBoolean m
    (if t.asArgument.isComposite then (m.iterableShape? t.asArgument).getD t.asArgument
    else t.asArgument)

namespace TypeLowering

variable {m : Model} {lower : Ty → TypeLowering Target.Ty} {ctx : Context} {small : Bool} {t : Ty}

theorem view_eq (m : Model) (ctx : Context) (t : Ty) :
    ArgumentView.of m ctx t =
      if t.asArgument.isComposite then
        match m.iterableShape? t.asArgument with
        | some shape => .as (ArgumentView.widenBoolean m shape)
        | none =>
          if ctx.creating || !ctx.nestsArguments then .forcesRaw
          else .as (ArgumentView.widenBoolean m t.asArgument)
      else .as (ArgumentView.widenBoolean m t.asArgument) := rfl

theorem view_eq_seen (hctx : (ctx.creating || !ctx.nestsArguments) = false) :
    ArgumentView.of m ctx t = .as (m.seenArgument t) := by
  rw [view_eq, Model.seenArgument]
  split
  · cases m.iterableShape? t.asArgument with
    | some shape => rfl
    | none => simp [hctx]
  · rfl

/-! ## Positions -/

/-- The clause that names an extended class. -/
def extendsClause (small : Bool) : Context := { extending := true, small := small }

/-- Inside the arguments of another type. -/
def amongArguments (small : Bool) : Context :=
  { noPrimitives := true, argument := true, small := small }

theorem adjust_inExtends (c : Config) : adjust c .inExtends = extendsClause c.smallIntegers := by
  unfold adjust
  cases c.smallIntegers <;> rfl

theorem adjust_typeArgument (c : Config) :
    adjust c .typeArgument = amongArguments c.smallIntegers := by
  unfold adjust
  cases c.smallIntegers <;> rfl

/-! ## Arguments -/

/-- Two computations that both have an answer have the same one exactly under the
condition. -/
def AlikeIff {α : Type} (P : Prop) (x y : TypeLowering α) : Prop :=
  ∀ a b, x.answer? = some a → y.answer? = some b → (a = b ↔ P)

theorem AlikeIff.refl {α : Type} {P : Prop} (h : P) (x : TypeLowering α) : AlikeIff P x x := by
  intro a b ha hb
  rw [ha] at hb
  exact iff_of_true (Option.some.inj hb) h

theorem AlikeIff.congr {α : Type} {P Q : Prop} {x y : TypeLowering α} (h : AlikeIff P x y)
    (hiff : P ↔ Q) : AlikeIff Q x y :=
  fun a b ha hb => (h a b ha hb).trans hiff

/-- What a clause has in place of an argument without a type of its own. -/
def replacement (lower : Ty → TypeLowering Target.Ty) (p : TypeParam) : TypeLowering Target.Ty :=
  match p.bounds.head? with
  | some bound => lower bound
  | none => pure .object

/-- Among arguments the argument of a parameter is written as in a clause: the
type of everything where it is no wildcard, and another type where its parameter
does not vary. -/
def AlikeAs (lower : Ty → TypeLowering Target.Ty) (p : TypeParam) (t : Ty) : Prop :=
  if t = Language.voidTy then p.variance ≠ .covariant
  else t ≠ .bottom ∧ p.variance = .invariant ∧
    (t.isComposite = true → (replacement lower p).answer? = (lower t).answer?)

/-- The argument that is given for a parameter, if there is one, is written
alike. -/
def AlikeArgument (m : Model) (lower : Ty → TypeLowering Target.Ty) (x : ParamId × Option Ty) :
    Prop :=
  ∀ t ∈ x.2, AlikeAs lower (m.param x.1) (m.seenArgument t)

theorem eq_wildcard_iff {v : Variance} {t u : Target.Ty} (ht : t.isWildcard = false) :
    t = wildcard v (amongArguments small) u ↔ v = .invariant ∧ t = u := by
  cases v with
  | covariant | contravariant =>
    refine iff_of_false ?_ (by simp)
    rintro rfl
    contradiction
  | invariant => simp [wildcard, amongArguments]

theorem viewedArgument_clause (p : TypeParam) (t : Ty) :
    viewedArgument lower (extendsClause small) p t =
      if t = Language.voidTy ∨ t = .bottom then pure (some .object)
      else some <$> if t.isComposite then replacement lower p else lower t := by
  by_cases hvoid : t = Language.voidTy
  · rw [if_pos (.inl hvoid), viewedArgument, if_pos hvoid]
    rfl
  by_cases hbottom : t = .bottom
  · subst hbottom
    rw [if_pos (.inr rfl), viewedArgument]
    cases p.bounds.head? with
    | some bound => rfl
    | none => rfl
  rw [if_neg (by simp [hvoid, hbottom]), viewedArgument, if_neg hvoid]
  cases hcomposite : t.isComposite with
  | true =>
    unfold replacement
    cases p.bounds.head? with
    | some bound => simp [hbottom, extendsClause, Context.nestsArguments, Context.inSupertypeClause]
    | none => simp [extendsClause, Context.nestsArguments, Context.inSupertypeClause]
  | false => simp [hbottom, extendsClause, Context.inSupertypeClause]

theorem viewedArgument_among (p : TypeParam) (t : Ty) :
    viewedArgument lower (amongArguments small) p t =
      if t = Language.voidTy then pure (some (voidArgument (amongArguments small) p.variance))
      else if t = .bottom then pure (some .anyType)
      else (fun u => some (wildcard p.variance (amongArguments small) u)) <$> lower t := by
  unfold viewedArgument
  by_cases hbottom : t = .bottom
  · subst hbottom
    rfl
  · simp [hbottom, amongArguments, Context.inSupertypeClause]

theorem argument_some (hctx : (ctx.creating || !ctx.nestsArguments) = false) (owner : Ty)
    (p : ParamId) (t : Ty) :
    argument m lower ctx owner p (some t) =
      viewedArgument lower ctx (m.param p) (m.seenArgument t) := by
  simp only [argument, view_eq_seen hctx]

/-- In neither position does an argument make the type raw. -/
theorem exists_argument (hctx : ctx = extendsClause small ∨ ctx = amongArguments small)
    {owner : Ty} {p : ParamId} {arg : Option Ty} {o : Option Target.Ty}
    (h : (argument m lower ctx owner p arg).answer? = some o) : ∃ a, o = some a := by
  have hmap : ∀ {x : TypeLowering Target.Ty} (f : Target.Ty → Target.Ty),
      ((fun u => some (f u)) <$> x).answer? = some o → ∃ a, o = some a := by
    intro x f hx
    rw [answer?_map, Option.map_eq_some_iff] at hx
    obtain ⟨u, _, rfl⟩ := hx
    exact ⟨_, rfl⟩
  cases arg with
  | none =>
    cases h
    exact ⟨_, rfl⟩
  | some t =>
    obtain rfl | rfl := hctx
    · rw [argument_some rfl, viewedArgument_clause] at h
      split at h
      · cases h
        exact ⟨_, rfl⟩
      · exact hmap id h
    · rw [argument_some rfl, viewedArgument_among] at h
      split at h
      · cases h
        exact ⟨_, rfl⟩
      · split at h
        · cases h
          exact ⟨_, rfl⟩
        · exact hmap _ h

theorem exists_arguments (hctx : ctx = extendsClause small ∨ ctx = amongArguments small)
    {owner : Ty} {pairs : List (ParamId × Option Ty)} :
    ∀ {o : Option (List Target.Ty)}, (arguments m lower ctx owner pairs).answer? = some o →
      ∃ ts, o = some ts ∧ ts.length = pairs.length := by
  induction pairs with
  | nil =>
    intro o h
    cases h
    exact ⟨[], rfl, rfl⟩
  | cons x rest ih =>
    intro o h
    unfold arguments at h
    obtain ⟨a, ha, h⟩ := answer?_bind.mp h
    obtain ⟨t, rfl⟩ := exists_argument hctx ha
    obtain ⟨os, hos, h⟩ := answer?_bind.mp h
    obtain ⟨ts, rfl, hlength⟩ := ih hos
    cases h
    exact ⟨t :: ts, rfl, congrArg (· + 1) hlength⟩

section

variable (hlower : ∀ t u, (lower t).answer? = some u → u.isWildcard = false)

include hlower

theorem viewedArgument_alike (p : TypeParam) (t : Ty) :
    AlikeIff (AlikeAs lower p t) (viewedArgument lower (extendsClause small) p t)
      (viewedArgument lower (amongArguments small) p t) := by
  intro a b ha hb
  rw [viewedArgument_clause] at ha
  rw [viewedArgument_among] at hb
  unfold AlikeAs
  by_cases hvoid : t = Language.voidTy
  · rw [if_pos hvoid] at hb ⊢
    rw [if_pos (.inl hvoid)] at ha
    cases ha
    cases hb
    cases p.variance <;> simp [voidArgument, amongArguments, Context.inSupertypeClause,
      Target.Ty.object]
  rw [if_neg hvoid] at hb ⊢
  by_cases hbottom : t = .bottom
  · rw [if_pos hbottom] at hb
    rw [if_pos (.inr hbottom)] at ha
    cases ha
    cases hb
    simp [hbottom, Target.Ty.object]
  rw [if_neg hbottom, answer?_map, Option.map_eq_some_iff] at hb
  rw [if_neg (by simp [hvoid, hbottom]), answer?_map, Option.map_eq_some_iff] at ha
  obtain ⟨u, hu, rfl⟩ := hb
  obtain ⟨c, hc, rfl⟩ := ha
  cases hcomposite : t.isComposite with
  | true =>
    rw [hcomposite, if_pos rfl] at hc
    have hwild : c.isWildcard = false := by
      unfold replacement at hc
      split at hc
      · exact hlower _ c hc
      · cases hc
        rfl
    rw [Option.some.injEq, eq_wildcard_iff hwild, hc, hu]
    simp [hbottom]
  | false =>
    rw [hcomposite, if_neg (by simp)] at hc
    rw [Option.some.injEq, eq_wildcard_iff (hlower t c hc)]
    rw [hu] at hc
    simp [hbottom, Option.some.inj hc]

theorem argument_alike (owner : Ty) (x : ParamId × Option Ty) :
    AlikeIff (AlikeArgument m lower x) (argument m lower (extendsClause small) owner x.1 x.2)
      (argument m lower (amongArguments small) owner x.1 x.2) := by
  obtain ⟨p, arg⟩ := x
  cases arg with
  | none => exact .refl nofun _
  | some t =>
    dsimp only
    rw [argument_some rfl, argument_some rfl]
    exact (viewedArgument_alike hlower (m.param p) _).congr (by simp [AlikeArgument])

theorem arguments_alike (owner : Ty) (pairs : List (ParamId × Option Ty)) :
    AlikeIff (∀ x ∈ pairs, AlikeArgument m lower x)
      (arguments m lower (extendsClause small) owner pairs)
      (arguments m lower (amongArguments small) owner pairs) := by
  induction pairs with
  | nil => exact .refl (by simp) _
  | cons x rest ih =>
    intro o o' h h'
    unfold arguments at h h'
    obtain ⟨a, ha, h⟩ := answer?_bind.mp h
    obtain ⟨a', ha', h'⟩ := answer?_bind.mp h'
    have hfirst := argument_alike hlower owner x a a' ha ha'
    obtain ⟨t, rfl⟩ := exists_argument (.inl rfl) ha
    obtain ⟨t', rfl⟩ := exists_argument (.inr rfl) ha'
    obtain ⟨os, hos, h⟩ := answer?_bind.mp h
    obtain ⟨os', hos', h'⟩ := answer?_bind.mp h'
    have hrest := ih os os' hos hos'
    obtain ⟨ts, rfl, _⟩ := exists_arguments (.inl rfl) hos
    obtain ⟨ts', rfl, _⟩ := exists_arguments (.inr rfl) hos'
    cases h
    cases h'
    rw [List.forall_mem_cons, ← hfirst, ← hrest]
    simp

end

/-! ## Segments -/

theorem exists_typeArguments (hctx : ctx = extendsClause small ∨ ctx = amongArguments small)
    {callable : Bool} {owner : Ty} {pairs : List (ParamId × Option Ty)}
    {o : Option (List Target.Ty)}
    (h : (typeArguments m lower ctx callable owner pairs).answer? = some o) :
    ∃ ts, o = some ts ∧ ts.length = (writtenArguments callable pairs).length :=
  exists_arguments hctx h

/-- The arguments that are written with a segment. -/
def segmentPairs (m : Model) (c : Chain) (position : Nat) (segment : Ty) :
    List (ParamId × Option Ty) :=
  if c.firstWithArgs ≤ position then
    writtenArguments segment.isCallable (flatArguments m [segment])
  else []

/-- The name of a segment tells apart what is around it, where anything is. -/
theorem segmentBase_inj {c : Chain} {around around' base base' : Target.Ty} {position : Nat}
    {d : DeclId} (haround : position = 0 → around = around')
    (h : (segmentBase m (amongArguments small) c around position d).answer? = some base)
    (h' : (segmentBase m (amongArguments small) c around' position d).answer? = some base') :
    base = base' ↔ around = around' := by
  cases position with
  | zero =>
    obtain rfl := haround rfl
    rw [h] at h'
    exact iff_of_true (Option.some.inj h') rfl
  | succ position =>
    unfold segmentBase at h h'
    rw [if_neg (by simp [amongArguments]), if_neg (by omega)] at h h'
    cases h
    cases h'
    simp

section

variable (hlower : ∀ t u, (lower t).answer? = some u → u.isWildcard = false)

include hlower

theorem segmentType_alike {c : Chain} {around around' u u' : Target.Ty} {position : Nat}
    {segment : Ty} (hsegment : segment.decl?.isSome = true)
    (haround : position = 0 → around = around')
    (h : (segmentType m lower (extendsClause small) c around position segment).answer? = some u)
    (h' : (segmentType m lower (amongArguments small) c around' position segment).answer? =
      some u') :
    u = u' ↔ around = around' ∧ ∀ x ∈ segmentPairs m c position segment,
      AlikeArgument m lower x := by
  cases segment with
  | nominal d as o hint =>
    have hflat : flatArguments m [.nominal d as o hint] = segmentArguments m d as :=
      List.append_nil _
    unfold segmentPairs
    rw [hflat]
    by_cases hcarries : c.firstWithArgs ≤ position
    · simp only [segmentType, if_pos hcarries] at h h' ⊢
      obtain ⟨os, hos, h⟩ := answer?_bind.mp h
      obtain ⟨os', hos', h'⟩ := answer?_bind.mp h'
      obtain ⟨ts, rfl, hlength⟩ := exists_typeArguments (.inl rfl) hos
      obtain ⟨ts', rfl, hlength'⟩ := exists_typeArguments (.inr rfl) hos'
      obtain ⟨base, hbase, h⟩ := answer?_bind.mp h
      obtain ⟨base', hbase', h'⟩ := answer?_bind.mp h'
      cases h
      cases h'
      have hargs := arguments_alike hlower _ _ _ _ hos hos'
      rw [Option.some.injEq] at hargs
      rw [Option.getD_some, Option.getD_some, Target.Ty.applied_inj (hlength.trans hlength'.symm),
        hargs, segmentBase_inj haround hbase hbase']
    · simp only [segmentType, if_neg hcarries, pure_bind] at h h' ⊢
      obtain ⟨base, hbase, h⟩ := answer?_bind.mp h
      obtain ⟨base', hbase', h'⟩ := answer?_bind.mp h'
      cases h
      cases h'
      have hnames := segmentBase_inj haround hbase hbase'
      simpa [Target.Ty.applied] using hnames
  | union _ | inter _ | param _ | bottom | error => contradiction

end

/-- The arguments that are written with some segments, innermost first.  What is
around a segment that cannot be written is not written either. -/
def chainPairs (m : Model) (c : Chain) : List Ty → List (ParamId × Option Ty)
  | [] => []
  | segment :: rest =>
    if segment.decl?.isSome then segmentPairs m c rest.length segment ++ chainPairs m c rest
    else []

theorem chainType_alike (hlower : ∀ t u, (lower t).answer? = some u → u.isWildcard = false)
    (c : Chain) (segments : List Ty) :
    AlikeIff (∀ x ∈ chainPairs m c segments, AlikeArgument m lower x)
      (chainType m lower (extendsClause small) c 0 .erroneous segments.reverse)
      (chainType m lower (amongArguments small) c 0 .erroneous segments.reverse) := by
  induction segments with
  | nil => exact .refl (by simp [chainPairs]) _
  | cons segment rest ih =>
    intro u u' h h'
    rw [List.reverse_cons, chainType_concat, List.length_reverse, Nat.zero_add] at h h'
    obtain ⟨around, haround, h⟩ := answer?_bind.mp h
    obtain ⟨around', haround', h'⟩ := answer?_bind.mp h'
    have houter := ih around around' haround haround'
    unfold chainPairs
    cases hsegment : segment.decl?.isSome with
    | true =>
      have houtermost : rest.length = 0 → around = around' := by
        intro hnone
        rw [houter, List.length_eq_zero_iff.mp hnone]
        simp [chainPairs]
      rw [segmentType_alike hlower hsegment houtermost h h', houter, if_pos rfl,
        List.forall_mem_append]
      exact and_comm
    | false =>
      cases segment with
      | nominal d as o hint => contradiction
      | union _ | inter _ | param _ | bottom | error =>
        cases h
        cases h'
        simp

/-! ## Class types -/

/-- The arguments that are written with a class type. -/
def classPairs (m : Model) (t : Ty) : List (ParamId × Option Ty) :=
  if t.simplify.segments.any (fun s => !s.args.isEmpty) then
    if isLifted m t.simplify then
      writtenArguments t.simplify.isCallable (flatArguments m t.simplify.segments.reverse)
    else chainPairs m (Chain.of m t.simplify) t.simplify.segments
  else []

/-- Where the type is a platform string without arguments, the class that it is
boxed into has the name of the platform's own class. -/
def StringAlike (m : Model) (t : Ty) : Prop :=
  t.isBarePlatformString = true →
    ∀ d ∈ t.simplify.decl?, m.spelling d .full = Support.platformString

theorem liftedType_alike (hlower : ∀ t u, (lower t).answer? = some u → u.isWildcard = false)
    (hlifted : isLifted m t = true) :
    AlikeIff
      (∀ x ∈ writtenArguments t.isCallable (flatArguments m t.segments.reverse),
        AlikeArgument m lower x)
      (liftedType m lower (extendsClause small) t)
      (liftedType m lower (amongArguments small) t) := by
  intro u u' h h'
  cases t with
  | nominal d as o hint =>
    simp only [liftedType, extendsClause, amongArguments, Ty.decl?, Bool.and_false,
      Bool.false_eq_true, if_false] at h h'
    obtain ⟨os, hos, h⟩ := answer?_bind.mp h
    obtain ⟨os', hos', h'⟩ := answer?_bind.mp h'
    obtain ⟨ts, rfl, hlength⟩ := exists_typeArguments (.inl rfl) hos
    obtain ⟨ts', rfl, hlength'⟩ := exists_typeArguments (.inr rfl) hos'
    have hargs := arguments_alike hlower _ _ _ _ hos hos'
    rw [Option.some.injEq] at hargs
    cases h
    cases h'
    rw [Option.getD_some, Option.getD_some, Target.Ty.applied_inj (hlength.trans hlength'.symm),
      hargs]
    exact and_iff_right rfl
  | union _ | inter _ | param _ | bottom | error => simp [isLifted, Ty.segments] at hlifted

/-- Without arguments the positions part at a platform string. -/
theorem bareType_alike (hargs : t.simplify.segments.any (fun s => !s.args.isEmpty) = false) :
    AlikeIff (StringAlike m t) (bareType m (extendsClause small) t.simplify)
      (bareType m (amongArguments small) t.simplify) := by
  have hall : t.simplify.segments.all (·.args.isEmpty) = true := by
    simpa [List.any_eq_false, List.all_eq_true] using hargs
  intro u u' h h'
  unfold StringAlike Ty.isBarePlatformString
  rw [hall, Bool.and_true, beq_iff_eq]
  cases hsimple : t.simplify with
  | nominal d as o hint =>
    rw [hsimple] at h h'
    have hamong : bareType m (amongArguments small) (.nominal d as o hint) =
        .cls <$> declName m d .full := rfl
    rw [hamong] at h'
    cases h'
    by_cases hhint : hint = some .platformString
    · subst hhint
      cases h
      simp [Ty.hint?, Ty.decl?, eq_comm]
    · have hclause : bareType m (extendsClause small) (.nominal d as o hint) =
          .cls <$> declName m d .full := by
        simp [bareType, hhint, extendsClause, spellingIn, Spelling.full]
      rw [hclause] at h
      cases h
      simp [Ty.hint?, hhint]
  | union _ | inter _ | param _ | bottom | error =>
    rw [hsimple] at h h'
    cases h
    cases h'
    simp [Ty.hint?]

/-- A class type is written alike in both positions exactly when its written
arguments are, and when it is no platform string without arguments. -/
theorem classType_alike (hlower : ∀ t u, (lower t).answer? = some u → u.isWildcard = false)
    (t : Ty) :
    AlikeIff (StringAlike m t ∧ ∀ x ∈ classPairs m t, AlikeArgument m lower x)
      (classType m lower (extendsClause small) t) (classType m lower (amongArguments small) t) := by
  unfold classType classPairs
  dsimp only
  cases hargs : t.simplify.segments.any (fun s => !s.args.isEmpty) with
  | true =>
    have hbare : StringAlike m t := by
      intro hbare
      simp only [Ty.isBarePlatformString, Bool.and_eq_true, List.all_eq_true] at hbare
      obtain ⟨s, hs, hne⟩ := List.any_eq_true.mp hargs
      rw [hbare.2 s hs] at hne
      contradiction
    have hclause : (!(extendsClause small).raw && true) = true := rfl
    have hamong : (!(amongArguments small).raw && true) = true := rfl
    have hclause' : (extendsClause small).simpleName = false := rfl
    have hamong' : (amongArguments small).simpleName = false := rfl
    simp only [hclause, hamong, hclause', hamong', if_true, Bool.false_eq_true, if_false]
    cases hlifted : isLifted m t.simplify with
    | true => exact (liftedType_alike hlower hlifted).congr (by simp [hbare])
    | false => exact (chainType_alike hlower _ _).congr (by simp [hbare])
  | false =>
    simp only [Bool.and_false, Bool.false_eq_true, if_false]
    exact (bareType_alike hargs).congr (by simp)

/-! ## Types that are written alike -/

theorem answer?_bind_congr {α β : Type} {x y : TypeLowering α} {f g : α → TypeLowering β}
    (h : x.answer? = y.answer?) (hf : ∀ a, (f a).answer? = (g a).answer?) :
    (x >>= f).answer? = (y >>= g).answer? := by
  refine Option.ext fun b => ?_
  rw [answer?_bind, answer?_bind]
  simp only [h, hf]

/-- The two arguments are seen as the same type in every position. -/
def SeenAlike (m : Model) (a b : Ty) : Prop :=
  ∀ ctx, ArgumentView.of m ctx a = ArgumentView.of m ctx b

theorem SeenAlike.refl (m : Model) (a : Ty) : SeenAlike m a a := fun _ => rfl

/-- The same parameter, without an argument or with arguments that are seen
alike. -/
inductive PairedAlike (m : Model) : ParamId × Option Ty → ParamId × Option Ty → Prop
  | missing (p : ParamId) : PairedAlike m (p, none) (p, none)
  | given (p : ParamId) {a b : Ty} (h : SeenAlike m a b) : PairedAlike m (p, some a) (p, some b)

theorem PairedAlike.refl : ∀ x, PairedAlike m x x
  | (p, none) => .missing p
  | (p, some a) => .given p (.refl m a)

theorem pairArguments_alike {as bs : List Ty} (hargs : List.Forall₂ (SeenAlike m) as bs)
    (ps : List ParamId) :
    List.Forall₂ (PairedAlike m) (pairArguments ps as) (pairArguments ps bs) := by
  induction ps generalizing as bs with
  | nil => exact .nil
  | cons p ps ih =>
    cases hargs with
    | nil => exact .cons (.missing p) (ih .nil)
    | cons hfirst hrest => exact .cons (.given p hfirst) (ih hrest)

/-- The type that an argument belongs to is at most noted. -/
theorem answer?_argument_congr {x y : ParamId × Option Ty} (h : PairedAlike m x y)
    (owner owner' : Ty) : (argument m lower ctx owner x.1 x.2).answer? =
      (argument m lower ctx owner' y.1 y.2).answer? := by
  cases h with
  | missing p => rfl
  | given p h => simp only [argument, h ctx]

theorem answer?_arguments_congr {xs ys : List (ParamId × Option Ty)}
    (h : List.Forall₂ (PairedAlike m) xs ys) (owner owner' : Ty) :
    (arguments m lower ctx owner xs).answer? = (arguments m lower ctx owner' ys).answer? := by
  induction h with
  | nil => rfl
  | cons hfirst _ ih =>
    refine answer?_bind_congr (answer?_argument_congr hfirst owner owner') fun a => ?_
    cases a with
    | none => rfl
    | some a => exact answer?_bind_congr ih fun _ => rfl

theorem answer?_typeArguments_congr {xs ys : List (ParamId × Option Ty)}
    (h : List.Forall₂ (PairedAlike m) xs ys) (callable : Bool) (owner owner' : Ty) :
    (typeArguments m lower ctx callable owner xs).answer? =
      (typeArguments m lower ctx callable owner' ys).answer? := by
  refine answer?_arguments_congr ?_ owner owner'
  unfold writtenArguments
  split
  · exact List.forall₂_take 1 h
  · exact h

/-- Of the whole type it matters only, and only where an object is created,
whether it is a function value's type. -/
theorem segmentBase_whole (c : Chain) (whole : Ty)
    (hwhole : ctx.creating = true → whole.isCallable = c.whole.isCallable) (around : Target.Ty)
    (position : Nat) (d : DeclId) :
    segmentBase m ctx { c with whole := whole } around position d =
      segmentBase m ctx c around position d := by
  unfold segmentBase
  cases hcreating : ctx.creating with
  | false => simp only [Bool.and_false]
  | true => simp only [hwhole hcreating]

theorem segmentType_whole (c : Chain) (whole : Ty)
    (hwhole : ctx.creating = true → whole.isCallable = c.whole.isCallable) (around : Target.Ty)
    (position : Nat) (segment : Ty) :
    segmentType m lower ctx { c with whole := whole } around position segment =
      segmentType m lower ctx c around position segment := by
  cases segment with
  | nominal d as o hint => simp only [segmentType, segmentBase_whole c whole hwhole]
  | union _ | inter _ | param _ | bottom | error => rfl

theorem chainType_whole (c : Chain) (whole : Ty)
    (hwhole : ctx.creating = true → whole.isCallable = c.whole.isCallable) (segments : List Ty) :
    ∀ (position : Nat) (around : Target.Ty),
      chainType m lower ctx { c with whole := whole } position around segments =
        chainType m lower ctx c position around segments := by
  induction segments with
  | nil => exact fun _ _ => rfl
  | cons segment rest ih =>
    intro position around
    simp only [chainType, segmentType_whole c whole hwhole, ih]

section

variable {d : DeclId} {as bs : List Ty} {o : Option Ty} {h h' : Option Hint}

theorem answer?_segmentType_congr (hargs : List.Forall₂ (SeenAlike m) as bs) (c : Chain)
    (around : Target.Ty) (position : Nat) :
    (segmentType m lower ctx c around position (.nominal d as o h)).answer? =
      (segmentType m lower ctx c around position (.nominal d bs o h')).answer? := by
  simp only [segmentType]
  split
  · exact answer?_bind_congr
      (answer?_typeArguments_congr (pairArguments_alike hargs _) _ _ _) fun _ => rfl
  · rfl

theorem answer?_liftedType_congr (hargs : List.Forall₂ (SeenAlike m) as bs) :
    (liftedType m lower ctx (.nominal d as o h)).answer? =
      (liftedType m lower ctx (.nominal d bs o h')).answer? := by
  have hflat : List.Forall₂ (PairedAlike m)
      (flatArguments m (Ty.nominal d as o h).segments.reverse)
      (flatArguments m (Ty.nominal d bs o h').segments.reverse) := by
    simp only [flatArguments, Ty.segments, List.reverse_cons, List.flatMap_append]
    exact List.rel_append (List.forall₂_same.mpr fun x _ => .refl x)
      (List.rel_append (pairArguments_alike hargs _) .nil)
  exact answer?_bind_congr (answer?_typeArguments_congr hflat _ _ _) fun _ => rfl

theorem chain_of_decl (d : DeclId) (as bs : List Ty) (o : Option Ty) (h h' : Option Hint) :
    Chain.of m (.nominal d as o h) =
      { Chain.of m (.nominal d bs o h') with whole := .nominal d as o h } := by
  simp only [Chain.of, Ty.segments, isStaticSegment, Ty.decl?, List.takeWhile_cons,
    List.length_cons]
  split <;> rfl

/-- Instantiations of one class whose arguments are seen alike are written alike,
provided that they are without their arguments. -/
theorem answer?_classType_congr (hoptional : (Ty.nominal d as o h).isOptional = false)
    (hargs : List.Forall₂ (SeenAlike m) as bs)
    (hbare : bareType m ctx (.nominal d as o h) = bareType m ctx (.nominal d bs o h')) :
    (classType m lower ctx (.nominal d as o h)).answer? =
      (classType m lower ctx (.nominal d bs o h')).answer? := by
  have hoptional' : (Ty.nominal d bs o h').isOptional = false := hoptional
  have hgeneric : (Ty.nominal d as o h).segments.any (fun s => !s.args.isEmpty) =
      (Ty.nominal d bs o h').segments.any (fun s => !s.args.isEmpty) := by
    have hempty : as.isEmpty = bs.isEmpty := by cases hargs <;> rfl
    simp only [Ty.segments, List.any_cons, Ty.args, hempty]
  have hlifted : isLifted m (.nominal d as o h) = isLifted m (.nominal d bs o h') := by
    simp only [isLifted, Ty.segments, Ty.decl?, List.length_cons]
    rfl
  have hsegment : ∀ (c : Chain) around position,
      (segmentType m lower ctx { c with whole := .nominal d as o h } around position
        (.nominal d as o h)).answer? =
      (segmentType m lower ctx { c with whole := .nominal d bs o h' } around position
        (.nominal d bs o h')).answer? := by
    intro c around position
    rw [segmentType_whole { c with whole := .nominal d bs o h' } (.nominal d as o h) fun _ => rfl]
    exact answer?_segmentType_congr hargs _ around position
  have hchain : (chainType m lower ctx (Chain.of m (.nominal d as o h)) 0 .erroneous
      (Ty.nominal d as o h).segments.reverse).answer? =
        (chainType m lower ctx (Chain.of m (.nominal d bs o h')) 0 .erroneous
          (Ty.nominal d bs o h').segments.reverse).answer? := by
    rw [chain_of_decl d as bs o h h', chainType_whole _ (.nominal d as o h) (fun _ => rfl),
      Ty.segments, Ty.segments, List.reverse_cons, List.reverse_cons, chainType_concat,
      chainType_concat]
    exact answer?_bind_congr rfl fun _ => answer?_segmentType_congr hargs _ _ _
  unfold classType
  dsimp only
  rw [simplify_eq hoptional, simplify_eq hoptional', hgeneric, hlifted, hbare]
  split
  · split
    · exact answer?_liftedType_congr hargs
    · split
      · exact hsegment ⟨.bottom, 1, 0⟩ .erroneous 0
      · exact hchain
  · rfl

/-- Among arguments a hint makes no difference. -/
theorem answer?_classType_hint (hoptional : (Ty.nominal d as o h).isOptional = false) :
    (classType m lower (amongArguments small) (.nominal d as o h)).answer? =
      (classType m lower (amongArguments small) (.nominal d as o h')).answer? :=
  answer?_classType_congr hoptional (List.forall₂_same.mpr fun a _ => .refl m a) rfl

end

end TypeLowering

end TreeLowering
