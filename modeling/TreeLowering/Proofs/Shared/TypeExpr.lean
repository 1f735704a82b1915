import TreeLowering.Proofs.Shared.Code
import TreeLowering.Proofs.Shared.Refinement
import TreeLowering.Proofs.Shared.State
import TreeLowering.Shared.TypeExpr
set_option autoImplicit false

/-!
# Proofs: types lowered over shared tables

The type expression that a type is lowered to over tables reads as the one that it is
lowered to among types and texts, and the names of declarations that were asked for
are the same.  How arguments are lowered is a parameter, as it is of the lowering.
-/

namespace TreeLowering

namespace TypeLowering

variable (m : Model) (lower : Ty → TypeLowering Target.Ty) (ctx : Context)

/-- Lowers a type that does not erase. -/
def keptType (t : Ty) : TypeLowering Target.Ty :=
  if t.simplify.isComposite then classType m lower ctx ((m.iterableShape? t).getD t)
  else if t.erasesToException then pure (.cls (exceptionClass ctx))
  else if ctx.allowsPrimitives && (!t.isOptional || t.isPlatformString) then
    match rawForm? m ctx.small t with
    | some raw => pure raw
    | none => classType m lower ctx t
  else if m.isBoolean t && !t.isTypeParameter then classType m lower ctx Language.booleanTy
  else classType m lower ctx t

/-- One step apart from how a type that does not erase is lowered. -/
theorem step_eq_keptType (given : Ty) :
    step m lower ctx given =
      if given.collapse = .error then pure (some .erroneous)
      else if m.erasesToObject (resolveBound m ctx given.collapse) then
        pure (if ctx.satisfies then none else some .object)
      else some <$> keptType m lower ctx (resolveBound m ctx given.collapse) := by
  unfold step keptType
  dsimp only
  split_ifs
  any_goals rfl
  cases rawForm? m ctx.small (resolveBound m ctx given.collapse) with
  | some raw => exact (map_pure _ _).symm
  | none => rfl

end TypeLowering

namespace Shared

open Tables Tabled
open TreeLowering.Shared.Lowering (Tracks)

namespace Tables

variable {t u : Tables} {i j : TypeIdx} {τ σ : Ty} {is : List TypeIdx} {τs : List Ty}
  {m : Model} {M : TreeLowering.Model} {ctx : Context}

/-- A class by its text. -/
theorem tells_named (x : String) : Tells t (Target.Ty.named x) PrintsTy (.cls x) :=
  (Tells.intern x).map fun _ _ _ _ hn => .cls hn

theorem tells_object : Tells t Target.Ty.object PrintsTy .object := tells_named _

/-! ## Arguments -/

/-- The way to treat an argument, in the tables. -/
inductive HasView (t : Tables) : ArgumentView → TreeLowering.ArgumentView → Prop where
  | forcesRaw : HasView t .forcesRaw .forcesRaw
  | as {i : TypeIdx} {τ : Ty} (hi : t.HasTy i τ) : HasView t (.as i) (.as τ)

/-- The parameter with its argument, if there is one, in the tables. -/
def HasPair (t : Tables) (e : ParamId × Option TypeIdx) (E : ParamId × Option Ty) : Prop :=
  e.1 = E.1 ∧ Maybe HasTy t e.2 E.2

instance : Stays HasView where
  mono h hu := by
    cases h with
    | forcesRaw => exact .forcesRaw
    | as hi => exact .as (hi.mono hu)

instance : Stays HasPair := ⟨fun h hu => ⟨h.1, Stays.mono h.2 hu⟩⟩

namespace HasModel

variable (hm : t.HasModel m M)
include hm

theorem widenBoolean (hi : t.HasTy i τ) :
    Tells t (m.widenBoolean i) HasTy (TreeLowering.ArgumentView.widenBoolean M τ) :=
  ((hm.isBoolean hi).both fun _ => (hm.isTypeParameter hi).no).ite'
    (fun _ => Tells.pure hm.builtins.boolean) fun _ => Tells.pure hi

theorem presentArgument (hi : t.HasTy i τ) :
    Tells t (m.presentArgument i) HasTy
      (if τ ≠ Language.voidTy && τ.isOptional then τ.nonNull else τ) := by
  refine .sound fun u hu hsound => ?_
  replace hi := hi.mono hu
  replace hm := hm.mono hu
  have hvoid : Says u (Pure.pure (decide (i ≠ m.builtins.void))) (decide (τ ≠ Language.voidTy)) :=
    Tells.pure (decide_eq_decide.mpr (not_congr (hi.eq_iff hm.builtins.void hsound)))
  exact (hvoid.both fun _ => hi.isOptional).ite' (fun _ => hm.nonNull hi) fun _ => Tells.pure hi

theorem viewArgument (ctx : Context) (hi : t.HasTy i τ) :
    Tells t (m.viewArgument ctx i) HasView (TreeLowering.ArgumentView.of M ctx τ) := by
  refine hi.collapse.bind fun u only hu _ honly => ?_
  refine ((hm.mono hu).presentArgument honly).bind fun v present hv _ hpresent => ?_
  replace hm := hm.mono (hu.trans hv)
  have hwidened : ∀ {w k κ}, v.Within w → w.HasTy k κ →
      Tells w (ArgumentView.as <$> m.widenBoolean k) HasView
        (.as (TreeLowering.ArgumentView.widenBoolean M κ)) := fun hw hk =>
    ((hm.mono hw).widenBoolean hk).map fun _ _ _ _ h => .as h
  refine hpresent.isComposite.ite' (fun _ => ?_) fun _ => hwidened (.refl v) hpresent
  refine (hm.iterableShape? hpresent).bind fun w shape hw _ hshape => ?_
  generalize M.iterableShape? _ = Shape at hshape
  cases hshape with
  | some hshape => exact hwidened hw hshape
  | none =>
    dsimp only
    split
    · exact Tells.pure .forcesRaw
    · exact hwidened hw (hpresent.mono hw)

end HasModel

theorem PrintsTy.wildcard {a : Target.Ty} {b : TreeLowering.Target.Ty} (h : t.PrintsTy a b)
    (v : Variance) (ctx : Context) :
    t.PrintsTy (wildcard v ctx a) (TypeLowering.wildcard v ctx b) := by
  unfold Shared.wildcard TypeLowering.wildcard
  split
  · exact h
  · cases v with
    | covariant => exact h.subtypeOf
    | contravariant => exact h.supertypeOf
    | invariant => exact h

theorem Each.pairArguments (ps : List ParamId) (his : Each HasTy t is τs) :
    Each HasPair t (pairArguments ps is) (TypeLowering.pairArguments ps τs) := by
  induction ps generalizing is τs with
  | nil => exact .nil
  | cons p ps ih =>
    cases his with
    | nil => exact .cons ⟨rfl, .none⟩ (ih .nil)
    | cons hi his => exact .cons ⟨rfl, .some hi⟩ (ih his)

theorem tells_voidArgument (ctx : Context) (v : Variance) :
    Tells t (voidArgument ctx v) PrintsTy (TypeLowering.voidArgument ctx v) := by
  unfold voidArgument TypeLowering.voidArgument
  split
  · exact tells_object
  · cases v with
    | covariant => exact Tells.pure .anyType
    | contravariant | invariant => exact tells_object

/-- From the tables on, types are lowered as among types and texts. -/
def Lowers (M : TreeLowering.Model) (t : Tables) (lower : TypeIdx → Lowering Target.Ty)
    (Lower : Ty → TypeLowering TreeLowering.Target.Ty) : Prop :=
  ∀ u i τ, t.Within u → u.HasTy i τ → Tracks M u (lower i) PrintsTy (.ofType (Lower τ))

theorem Lowers.later {lower : TypeIdx → Lowering Target.Ty}
    {Lower : Ty → TypeLowering TreeLowering.Target.Ty} (h : Lowers M t lower Lower)
    (hu : t.Within u) : Lowers M u lower Lower :=
  fun v i τ hv => h v i τ (hu.trans hv)

section Arguments

variable {lower : TypeIdx → Lowering Target.Ty} {Lower : Ty → TypeLowering TreeLowering.Target.Ty}
  {p : TypeParam} {P : TreeLowering.TypeParam}

theorem Lowers.usedArgument (hlower : Lowers M t lower Lower) (hp : t.HasTypeParam p P)
    (hi : t.HasTy i τ) :
    Tracks M t (usedArgument lower ctx p i) (Maybe PrintsTy)
      (.ofType ((fun u => some (TypeLowering.wildcard P.variance ctx u)) <$> Lower τ)) := by
  unfold Shared.usedArgument
  rw [hp.variance]
  exact (hlower t i τ (.refl t) hi).typed_map fun _ _ _ _ _ h => .some (h.wildcard _ ctx)

theorem Lowers.boundArgument (hlower : Lowers M t lower Lower) (hp : t.HasTypeParam p P)
    (hi : t.HasTy i τ) :
    Tracks M t (boundArgument lower p i) (Maybe PrintsTy)
      (.ofType (match P.bounds.head? with
        | some bound => if τ ≠ .bottom then some <$> Lower bound else pure (some .object)
        | none => pure (some .object))) := by
  have hobject : Tracks M t (some <$> liftM Target.Ty.object) (Maybe PrintsTy)
      (.ofType (pure (some .object))) :=
    Tracks.tells_map tells_object fun _ _ _ _ h => .some h
  have hbound := Each.head? hp.bounds
  unfold Shared.boundArgument
  generalize p.bounds.head? = o, P.bounds.head? = O at hbound
  cases hbound with
  | none => exact hobject
  | some hb =>
    refine .sound fun u hu hsound => ?_
    have hbottom := (hi.mono hu).eq_iff hsound.hasTy_bottom hsound
    dsimp only
    split
    · next hne =>
      rw [if_pos (mt hbottom.mpr hne)]
      exact (hlower u _ _ hu (hb.mono hu)).typed_map fun _ _ _ _ _ h => .some h
    · next heq =>
      rw [if_neg (not_not.mpr (hbottom.mp (not_not.mp heq)))]
      exact hobject.later hu

theorem Lowers.viewedArgument (hlower : Lowers M t lower Lower) (hm : t.HasModel m M)
    (hp : t.HasTypeParam p P) (hi : t.HasTy i τ) :
    Tracks M t (viewedArgument m lower ctx p i) (Maybe PrintsTy)
      (.ofType (TypeLowering.viewedArgument Lower ctx P τ)) := by
  refine .sound fun u hu hsound => ?_
  replace hi := hi.mono hu
  replace hp : u.HasTypeParam p P := Stays.mono hp hu
  replace hlower := hlower.later hu
  have hvoid := hi.eq_iff (hm.mono hu).builtins.void hsound
  have hbottom := hi.eq_iff hsound.hasTy_bottom hsound
  unfold Shared.viewedArgument TypeLowering.viewedArgument
  split
  · next heq =>
    rw [if_pos (hvoid.mp heq), hp.variance]
    exact Tracks.tells_map (tells_voidArgument ctx _) fun _ _ _ _ h => .some h
  · next hne =>
    rw [if_neg (mt hvoid.mpr hne)]
    have hlone : Says u (pure (decide (i = .bottom))) (decide (τ = .bottom)) :=
      Tells.pure (decide_eq_decide.mpr hbottom)
    have hnested : Says u (both (pure ctx.nestsArguments) (isComposite i))
        (ctx.nestsArguments && τ.isComposite) :=
      Tells.both (Tells.pure rfl) fun _ => hi.isComposite
    refine Tracks.typed_ite' (hlone.either fun _ => hnested) (fun _ => ?_) fun _ => ?_
    · split
      · exact .typed_pure .none
      · split
        · exact hlower.boundArgument hp hi
        · split
          · next heq =>
            rw [if_pos (hbottom.mp heq)]
            exact .typed_pure (.some .anyType)
          · next hne =>
            rw [if_neg (mt hbottom.mpr hne)]
            exact hlower.usedArgument hp hi
    · split
      · exact (hlower u i τ (.refl u) hi).typed_map fun _ _ _ _ _ h => .some h
      · exact hlower.usedArgument hp hi

theorem Lowers.argument (hlower : Lowers M t lower Lower) (hm : t.HasModel m M)
    (hi : t.HasTy i τ) (q : ParamId) {o : Option TypeIdx} {O : Option Ty} (ho : Maybe HasTy t o O) :
    Tracks M t (argument m lower ctx i q o) (Maybe PrintsTy)
      (.ofType (TypeLowering.argument M Lower ctx τ q O)) := by
  cases ho with
  | none =>
    refine (Tracks.missingArgument hi (hm.param q).name).typed_bind fun u _ _ _ _ _ => ?_
    exact .typed_pure (.some .erroneous)
  | some ha =>
    refine .tells (hm.viewArgument ctx ha) fun u view hu _ hview => ?_
    unfold TypeLowering.argument
    dsimp only
    generalize TreeLowering.ArgumentView.of M ctx _ = View at hview
    cases hview with
    | forcesRaw => exact .typed_pure .none
    | as hj => exact (hlower.later hu).viewedArgument (hm.mono hu) ((hm.mono hu).param q) hj

theorem Lowers.arguments (hlower : Lowers M t lower Lower) (hm : t.HasModel m M)
    (hi : t.HasTy i τ) {es : List (ParamId × Option TypeIdx)} {Es : List (ParamId × Option Ty)}
    (hes : Each HasPair t es Es) :
    Tracks M t (arguments m lower ctx i es) (Maybe (Each PrintsTy))
      (.ofType (TypeLowering.arguments M Lower ctx τ Es)) := by
  induction hes with
  | nil => exact .typed_pure (.some .nil)
  | @cons e E es Es he _ ih =>
    obtain ⟨q, o⟩ := e
    obtain ⟨Q, O⟩ := E
    obtain ⟨rfl, ho⟩ := he
    refine (hlower.argument hm hi q ho).typed_bind fun u a A hu _ ha => ?_
    cases ha with
    | none => exact .typed_pure .none
    | some ha =>
      refine (ih.later hu).typed_bind fun v as As hv _ has => ?_
      cases has with
      | none => exact .typed_pure .none
      | some has => exact .typed_pure (.some (.cons (Stays.mono ha hv) has))

theorem Lowers.typeArguments (hlower : Lowers M t lower Lower) (hm : t.HasModel m M)
    (hi : t.HasTy i τ) (callable : Bool) {es : List (ParamId × Option TypeIdx)}
    {Es : List (ParamId × Option Ty)} (hes : Each HasPair t es Es) :
    Tracks M t (typeArguments m lower ctx callable i es) (Maybe (Each PrintsTy))
      (.ofType (TypeLowering.typeArguments M Lower ctx callable τ Es)) := by
  refine hlower.arguments hm hi ?_
  unfold TypeLowering.writtenArguments
  split
  · exact List.forall₂_take 1 hes
  · exact hes

end Arguments

/-! ## Segments -/

/-- The chain in the tables. -/
structure HasChain (c : Chain) (C : TypeLowering.Chain) : Prop where
  isCallable : c.isCallable = C.whole.isCallable
  length : c.length = C.length
  firstWithArgs : c.firstWithArgs = C.firstWithArgs

theorem HasModel.isStaticSegment (hm : t.HasModel m M) {n : TypeNode} (hn : t.Holds n τ) :
    m.isStaticSegment n = TypeLowering.isStaticSegment M τ := by
  unfold Model.isStaticSegment TypeLowering.isStaticSegment
  rw [hn.decl?_eq]
  cases τ.decl? with
  | none => rfl
  | some d => exact congrArg DeclFlags.isStatic (hm.decl d).flags

theorem HasModel.isLifted (hm : t.HasModel m M) {segments : List TypeIdx} {n : TypeNode}
    (hn : t.Holds n τ) (hsegments : Each HasTy t segments τ.segments) :
    m.isLifted segments n = TypeLowering.isLifted M τ := by
  unfold Model.isLifted TypeLowering.isLifted
  rw [hn.decl?_eq, List.Forall₂.length_eq hsegments]
  cases τ.decl? with
  | none => rfl
  | some d => exact congrArg _ (hm.isInterface d)

theorem HasModel.takeWhile_segments (hm : t.HasModel m M) (ht : t.Sound)
    (his : Each HasTy t is τs) :
    (is.takeWhile fun s => !m.isStaticSegment (t.pool.node s)).length =
      (τs.takeWhile fun s => !TypeLowering.isStaticSegment M s).length := by
  induction his with
  | nil => rfl
  | cons hi _ ih =>
    rw [List.takeWhile_cons, List.takeWhile_cons, hm.isStaticSegment (hi.holds ht)]
    split
    · exact congrArg Nat.succ ih
    · rfl

theorem HasModel.chainOf (hm : t.HasModel m M) (hsegments : Each HasTy t is τ.segments) :
    Tells t (m.chainOf τ.isCallable is) (fun _ => HasChain) (TypeLowering.Chain.of M τ) := by
  refine Tells.reading fun u hu hsound => ?_
  have hsegments : Each HasTy u is τ.segments := Stays.mono hsegments hu
  have hlength := List.Forall₂.length_eq hsegments
  refine ⟨rfl, hlength, ?_⟩
  show is.length - 1 - _ = τ.segments.length - 1 - _
  rw [hlength, (hm.mono hu).takeWhile_segments hsound hsegments]

theorem HasModel.flatArguments (hm : t.HasModel m M) (his : Each HasTy t is τs) :
    Tells t (m.flatArguments is) (Each HasPair) (TypeLowering.flatArguments M τs) := by
  refine Tells.reading fun u hu hsound => ?_
  replace his : Each HasTy u is τs := Stays.mono his hu
  unfold TypeLowering.flatArguments
  induction his with
  | nil => exact .nil
  | cons hi _ ih =>
    rw [List.flatMap_cons, List.flatMap_cons]
    refine Each.append ?_ ih
    have hnode := hi.holds hsound
    generalize u.pool.node _ = n at hnode
    cases hnode with
    | @nominal d as As o O h has ho =>
      dsimp only
      rw [TypeLowering.segmentArguments, ← (hm.decl d).typeParams]
      exact has.pairArguments _
    | union | inter | param | bottom | error => exact .nil

theorem tells_anyArguments (his : Each HasTy t is τs) :
    Says t (anyArguments is) (τs.any fun s => !s.args.isEmpty) := by
  refine Tells.reading fun u hu hsound => ?_
  replace his : Each HasTy u is τs := Stays.mono his hu
  refine his.any_eq fun i _ τ hi => congrArg _ ?_
  have hargs := (hi.holds hsound).args
  cases h : (u.pool.node i).args <;> cases h' : τ.args <;> rw [h, h'] at hargs <;>
    first | rfl | cases hargs

section Segments

variable {lower : TypeIdx → Lowering Target.Ty} {Lower : Ty → TypeLowering TreeLowering.Target.Ty}
  {a : Target.Ty} {b : TreeLowering.Target.Ty} {c : Chain} {C : TypeLowering.Chain}

theorem tracks_declClass (hm : t.HasModel m M) (d : DeclId) (s : Spelling) :
    Tracks M t (declClass m d s) PrintsTy (.ofType (.cls <$> TypeLowering.declName M d s)) :=
  (Tracks.declName hm d s).typed_map fun _ _ _ _ _ hn => .cls hn

theorem tracks_segmentBase (hm : t.HasModel m M) (hc : HasChain c C) (hab : t.PrintsTy a b)
    (position : Nat) (d : DeclId) :
    Tracks M t (segmentBase m ctx c a position d) PrintsTy
      (.ofType (TypeLowering.segmentBase M ctx C b position d)) := by
  unfold segmentBase TypeLowering.segmentBase
  rw [hc.isCallable, hc.length, hc.firstWithArgs, hm.isInterface]
  split
  · exact .typed_tells (tells_named _)
  · split
    · split
      · exact tracks_declClass hm d _
      · exact tracks_declClass hm d _
    · refine (Tracks.declName hm d _).typed_map fun u n x hu _ hn => ?_
      exact PrintsTy.member (Stays.mono hab hu) hn

theorem Lowers.carriedArguments (ctx : Context) (hlower : Lowers M t lower Lower)
    (hm : t.HasModel m M)
    (hc : HasChain c C) (position : Nat) (hi : t.HasTy i τ) (d : DeclId)
    (his : Each HasTy t is τs) :
    Tracks M t (carriedArguments m lower ctx c position i d is) (Maybe (Each PrintsTy))
      (.ofType (if C.firstWithArgs ≤ position then
        TypeLowering.typeArguments M Lower ctx τ.isCallable τ (TypeLowering.segmentArguments M d τs)
      else pure none)) := by
  unfold Shared.carriedArguments
  rw [hc.firstWithArgs]
  split
  · refine .tells hi.isCallable fun u callable hu _ hcallable => ?_
    obtain rfl : callable = τ.isCallable := hcallable
    rw [TypeLowering.segmentArguments, ← (hm.decl d).typeParams]
    exact (hlower.later hu).typeArguments (hm.mono hu) (hi.mono hu) _
      (Each.pairArguments _ (Stays.mono his hu))
  · exact .typed_pure .none

theorem PrintsTy.appliedAny {as : Option (List Target.Ty)}
    {bs : Option (List TreeLowering.Target.Ty)} (h : t.PrintsTy a b)
    (has : Maybe (Each PrintsTy) t as bs) :
    t.PrintsTy (.applied a (as.getD [])) (.applied b (bs.getD [])) := by
  cases has with
  | none => exact h.applied .nil
  | some has => exact h.applied has

theorem Lowers.segmentType (hlower : Lowers M t lower Lower) (hm : t.HasModel m M)
    (hc : HasChain c C) (hab : t.PrintsTy a b) (position : Nat) (hi : t.HasTy i τ) :
    Tracks M t (segmentType m lower ctx c a position i) PrintsTy
      (.ofType (TypeLowering.segmentType M Lower ctx C b position τ)) := by
  refine .tells (Tells.nodeAt hi) fun u n hu _ hn => ?_
  replace hi := hi.mono hu
  replace hm := hm.mono hu
  replace hlower := hlower.later hu
  replace hab : u.PrintsTy a b := Stays.mono hab hu
  cases hn with
  | union | inter | param | bottom | error => exact .typed_pure .erroneous
  | @nominal d as As o O h has ho =>
    have hcarried := hlower.carriedArguments ctx hm hc position hi d has
    have hrest : ∀ v as As, u.Within v → v.Sound → Maybe (Each PrintsTy) v as As →
        Tracks M v (do
          let base ← segmentBase m ctx c a position d
          pure (.applied base (as.getD []))) PrintsTy
        (.ofType (do
          let base ← TypeLowering.segmentBase M ctx C b position d
          pure (.applied base (As.getD [])))) := by
      intro v as As hv _ has
      refine (tracks_segmentBase (hm.mono hv) hc (Stays.mono hab hv) position d).typed_bind
        fun w base Base hw _ hbase => .typed_pure ?_
      exact PrintsTy.appliedAny hbase (Stays.mono has hw)
    unfold TypeLowering.segmentType
    dsimp only
    split at hcarried
    · next hle =>
      rw [if_pos hle]
      exact hcarried.typed_bind hrest
    · next hgt =>
      rw [if_neg hgt]
      exact hcarried.typed_bind hrest

theorem Lowers.chainType (hlower : Lowers M t lower Lower) (hm : t.HasModel m M)
    (hc : HasChain c C) (hab : t.PrintsTy a b) (position : Nat) (his : Each HasTy t is τs) :
    Tracks M t (chainType m lower ctx c position a is) PrintsTy
      (.ofType (TypeLowering.chainType M Lower ctx C position b τs)) := by
  suffices h : ∀ u a b position, t.Within u → u.PrintsTy a b →
      Tracks M u (Shared.chainType m lower ctx c position a is) PrintsTy
        (.ofType (TypeLowering.chainType M Lower ctx C position b τs)) from
    h t a b position (.refl t) hab
  induction his with
  | nil => exact fun _ _ _ _ _ hab => .typed_pure hab
  | cons hi _ ih =>
    intro u a b position hu hab
    refine ((hlower.later hu).segmentType (hm.mono hu) hc hab position (hi.mono hu)).typed_bind
      fun v a b hv _ hab => ?_
    exact ih v a b (position + 1) (hu.trans hv) hab

theorem tracks_liftedBase (hm : t.HasModel m M) {n : TypeNode} (hn : t.Holds n τ)
    (ctx : Context) (callable : Bool) :
    Tracks M t (liftedBase m ctx callable n) PrintsTy
      (.ofType (match τ.decl? with
        | none => pure TreeLowering.Target.Ty.erroneous
        | some d =>
          if callable && ctx.creating then pure (.cls Support.abstractCallable)
          else .cls <$> TypeLowering.declName M d .full)) := by
  cases hn with
  | union | inter | param | bottom | error => exact .typed_pure .erroneous
  | @nominal d as As o O h has ho =>
    unfold liftedBase
    dsimp only [Ty.decl?]
    split
    · exact .typed_tells (tells_named _)
    · exact tracks_declClass hm d .full

theorem Lowers.liftedType (hlower : Lowers M t lower Lower) (hm : t.HasModel m M)
    (hi : t.HasTy i τ) (hsegments : Each HasTy t is τ.segments) :
    Tracks M t (liftedType m lower ctx i is) PrintsTy
      (.ofType (TypeLowering.liftedType M Lower ctx τ)) := by
  refine .tells hi.isCallable fun u callable hu _ hcallable => ?_
  obtain rfl : callable = τ.isCallable := hcallable
  replace hsegments : Each HasTy u is τ.segments := Stays.mono hsegments hu
  refine .tells ((hm.mono hu).flatArguments (List.rel_reverse hsegments))
    fun v pairs hv _ hpairs => ?_
  replace hm := hm.mono (hu.trans hv)
  replace hi := hi.mono (hu.trans hv)
  refine ((hlower.later (hu.trans hv)).typeArguments hm hi _ hpairs).typed_bind
    fun w args Args hw _ hargs => ?_
  refine .tells (Tells.nodeAt (hi.mono hw)) fun x n hx _ hn => ?_
  have hbase := tracks_liftedBase (hm.mono (hw.trans hx)) hn ctx τ.isCallable
  have hrest : ∀ y a b, x.Within y → y.Sound → y.PrintsTy a b →
      Tracks M y (pure (.applied a (args.getD []))) PrintsTy
        (.ofType (pure (.applied b (Args.getD [])))) := fun y a b hy _ hab =>
    .typed_pure (PrintsTy.appliedAny hab (Stays.mono hargs (hx.trans hy)))
  cases hdecl : τ.decl? with
  | none =>
    rw [hdecl] at hbase
    exact hbase.typed_bind hrest
  | some d =>
    rw [hdecl] at hbase
    dsimp only at hbase ⊢
    split at hbase
    · next htrue =>
      rw [if_pos htrue]
      exact hbase.typed_bind hrest
    · next hfalse =>
      rw [if_neg hfalse]
      exact hbase.typed_bind hrest

theorem tracks_bareType (hm : t.HasModel m M) {n : TypeNode} (hn : t.Holds n τ) :
    Tracks M t (bareType m ctx n) PrintsTy (.ofType (TypeLowering.bareType M ctx τ)) := by
  cases hn with
  | union | inter | bottom | error => exact .typed_pure .erroneous
  | @param p => exact .typed_pure (.var (hm.param p).name)
  | @nominal d as As o O h has ho =>
    unfold bareType TypeLowering.bareType
    dsimp only
    split
    · exact .typed_tells (tells_named _)
    · exact tracks_declClass hm d _

theorem Lowers.appliedType (hlower : Lowers M t lower Lower) (hm : t.HasModel m M)
    (hi : t.HasTy i τ) (hsegments : Each HasTy t is τ.segments) :
    Tracks M t (appliedType m lower ctx i is) PrintsTy
      (.ofType (if TypeLowering.isLifted M τ then TypeLowering.liftedType M Lower ctx τ
        else if ctx.simpleName then
          TypeLowering.segmentType M Lower ctx ⟨τ, 1, 0⟩ .erroneous 0 τ
        else
          TypeLowering.chainType M Lower ctx (TypeLowering.Chain.of M τ) 0 .erroneous
            τ.segments.reverse)) := by
  refine .tells (Tells.nodeAt hi) fun u n hu _ hn => ?_
  replace hi := hi.mono hu
  replace hm := hm.mono hu
  replace hlower := hlower.later hu
  replace hsegments : Each HasTy u is τ.segments := Stays.mono hsegments hu
  rw [hm.isLifted hn hsegments]
  split
  · exact hlower.liftedType hm hi hsegments
  · refine .tells hi.isCallable fun v callable hv _ hcallable => ?_
    obtain rfl : callable = τ.isCallable := hcallable
    replace hm := hm.mono hv
    split
    · exact (hlower.later hv).segmentType hm ⟨rfl, rfl, rfl⟩ .erroneous 0 (hi.mono hv)
    · refine .tells (hm.chainOf (Stays.mono hsegments hv)) fun w c hw _ hc => ?_
      exact (hlower.later (hv.trans hw)).chainType (hm.mono hw) hc .erroneous 0
        (List.rel_reverse (Stays.mono hsegments (hv.trans hw)))

/-- A class, an interface or a type parameter. -/
theorem Lowers.classType (hlower : Lowers M t lower Lower) (hm : t.HasModel m M)
    (hi : t.HasTy i τ) :
    Tracks M t (classType m lower ctx i) PrintsTy
      (.ofType (TypeLowering.classType M Lower ctx τ)) := by
  refine .tells (hm.simplify hi) fun u simple hu _ hsimple => ?_
  refine .tells hsimple.segments fun v segments hv _ hsegments => ?_
  replace hm := hm.mono (hu.trans hv)
  replace hsimple := hsimple.mono hv
  refine Tracks.typed_ite' (Tells.both (Tells.pure rfl) fun _ => tells_anyArguments hsegments)
    (fun _ => ?_) fun _ => ?_
  · exact (hlower.later (hu.trans hv)).appliedType hm hsimple hsegments
  · exact .tells (Tells.nodeAt hsimple) fun w n hw _ hn => tracks_bareType (hm.mono hw) hn

end Segments

/-! ## Types -/

namespace HasModel

variable (hm : t.HasModel m M)
include hm

theorem rawForm? (small : Bool) (hi : t.HasTy i τ) :
    Tells t (m.rawForm? small i) (Maybe PrintsTy) (TypeLowering.rawForm? M small τ) := by
  refine hi.hint?.bind fun u hint hu _ hhint => ?_
  obtain rfl : hint = τ.hint? := hhint
  replace hm := hm.mono hu
  replace hi := hi.mono hu
  refine ((hm.isString hi).either fun _ => hm.isPlatformString hi).ite' (fun _ => ?_) fun _ => ?_
  · exact (tells_named _).map fun _ _ _ _ h => .some h
  refine (hm.isBoolean hi).ite' (fun _ => Tells.pure (.some (.primitive _))) fun _ => ?_
  refine (hm.isInteger hi).ite' (fun _ => Tells.pure (.some (.primitive _))) fun _ => ?_
  refine (hm.isFloat hi).ite' (fun _ => Tells.pure (.some (.primitive _))) fun _ => ?_
  exact (hm.isCharacter hi).ite' (fun _ => Tells.pure (.some (.primitive _)))
    fun _ => Tells.pure .none

theorem resolveBound (ctx : Context) (hi : t.HasTy i τ) :
    Tells t (m.resolveBound ctx i) HasTy (TypeLowering.resolveBound M ctx τ) := by
  unfold Model.resolveBound TypeLowering.resolveBound
  split
  · refine (Tells.nodeAt hi).bind fun u n hu _ hn => ?_
    cases hn with
    | nominal | union | inter | bottom | error => exact Tells.pure (hi.mono hu)
    | @param p =>
      refine Tells.pure ?_
      replace hm := hm.mono hu
      have hbound := hm.firstBound? p
      dsimp only
      generalize m.firstBound? p = o, M.firstBound? p = O at hbound
      cases hbound with
      | none => exact hm.builtins.object
      | some hb => exact hb
  · exact Tells.pure hi

theorem allowsRaw (ctx : Context) (hi : t.HasTy i τ) :
    Says t (m.allowsRaw ctx i) (ctx.allowsPrimitives && (!τ.isOptional || τ.isPlatformString)) :=
  Tells.both (Tells.pure rfl) fun _ => hi.isOptional.no.either fun _ => hm.isPlatformString hi

theorem boundsSource? (ht : t.Sound) (p : ParamId) : m.boundsSource? p = M.boundsSource? p := by
  unfold Model.boundsSource? TreeLowering.Model.boundsSource?
  dsimp only
  rw [(hm.param p).owner, hm.isMethod, (hm.decl _).refined, (hm.decl _).typeParams]
  cases (M.decl (M.param p).owner).refined with
  | none => rfl
  | some d =>
    cases (M.decl (M.param p).owner).typeParams.idxOf? p with
    | none => rfl
    | some position =>
      dsimp only
      rw [(hm.decl d).typeParams]
      cases (M.decl d).typeParams[position]? with
      | none => rfl
      | some q => dsimp only; rw [hm.haveSameBounds ht]

theorem emittedBounds (p : ParamId) :
    Tells t (m.emittedBounds p) (Each HasTy) (M.emittedBounds p) := by
  refine .sound fun u hu hsound => ?_
  replace hm := hm.mono hu
  unfold Model.emittedBounds TreeLowering.Model.emittedBounds
  rw [hm.boundsSource? hsound]
  exact Tells.only (hm.param _).bounds fun i τ hi => (hm.erasesToObject hi).no

end HasModel

section Step

variable {lower : TypeIdx → Lowering Target.Ty} {Lower : Ty → TypeLowering TreeLowering.Target.Ty}

theorem Lowers.keptType (hlower : Lowers M t lower Lower) (hm : t.HasModel m M)
    (hi : t.HasTy i τ) :
    Tracks M t (keptType m lower ctx i) PrintsTy
      (.ofType (TypeLowering.keptType M Lower ctx τ)) := by
  refine .tells (hm.simplify hi) fun u simple hu _ hsimple => ?_
  replace hm := hm.mono hu
  replace hi := hi.mono hu
  replace hlower := hlower.later hu
  refine Tracks.typed_ite' hsimple.isComposite (fun _ => ?_) fun _ => ?_
  · refine .tells (hm.iterableShape? hi) fun v shape hv _ hshape => ?_
    refine (hlower.later hv).classType (hm.mono hv) ?_
    generalize M.iterableShape? τ = Shape at hshape
    cases hshape with
    | none => exact hi.mono hv
    | some hshape => exact hshape
  refine Tracks.typed_ite' (hm.erasesToException hi) (fun _ => .typed_tells (tells_named _))
    fun _ => ?_
  refine Tracks.typed_ite' (hm.allowsRaw ctx hi) (fun _ => ?_) fun _ => ?_
  · refine .tells (hm.rawForm? ctx.small hi) fun v raw hv _ hraw => ?_
    generalize TypeLowering.rawForm? M ctx.small τ = Raw at hraw
    cases hraw with
    | some hraw => exact .typed_pure hraw
    | none => exact (hlower.later hv).classType (hm.mono hv) (hi.mono hv)
  exact Tracks.typed_ite' ((hm.isBoolean hi).both fun _ => (hm.isTypeParameter hi).no)
    (fun _ => hlower.classType hm hm.builtins.boolean) fun _ => hlower.classType hm hi

theorem Lowers.step (hlower : Lowers M t lower Lower) (hm : t.HasModel m M) (hi : t.HasTy i τ) :
    Tracks M t (step m lower ctx i) (Maybe PrintsTy)
      (.ofType (TypeLowering.step M Lower ctx τ)) := by
  rw [TypeLowering.step_eq_keptType]
  refine .tells hi.collapse fun u only hu hsound honly => ?_
  refine .typed_ite_iff (honly.eq_iff hsound.hasTy_error hsound) (fun _ => ?_) fun _ => ?_
  · exact .typed_pure (.some .erroneous)
  · refine .tells ((hm.mono hu).resolveBound ctx honly) fun v k hv _ hk => ?_
    replace hm := hm.mono (hu.trans hv)
    refine Tracks.typed_ite' (hm.erasesToObject hk) (fun _ => ?_) fun _ => ?_
    · split
      · exact .typed_pure .none
      · exact .tells_map tells_object fun _ _ _ _ h => .some h
    · exact ((hlower.later (hu.trans hv)).keptType hm hk).typed_map fun _ _ _ _ _ h => .some h

theorem tracks_orObject {x : Lowering (Option Target.Ty)}
    {z : TypeLowering (Option TreeLowering.Target.Ty)}
    (h : Tracks M t x (Maybe PrintsTy) (.ofType z)) :
    Tracks M t (orObject x) PrintsTy (.ofType (TypeLowering.orObject z)) := by
  unfold TypeLowering.orObject
  rw [map_eq_pure_bind]
  refine h.typed_bind fun u a b _ _ hab => ?_
  cases hab with
  | some hab => exact .typed_pure hab
  | none => exact .typed_tells tells_object

end Step

namespace HasEnv

variable {env : Env} {E : TreeLowering.Env}
variable (he : t.HasEnv env E)
include he

theorem argumentType (depth : Nat) :
    Lowers E.model t (env.argumentType depth) (TypeLowering.argumentType E depth) := by
  induction depth with
  | zero => exact fun _ _ _ _ _ => .halt
  | succ depth ih =>
    intro u i τ hu hi
    rw [Env.argumentType, TypeLowering.argumentType_succ, he.config]
    exact tracks_orObject ((ih.later hu).step (he.mono hu).model hi)

theorem lowerType? (ctx : Context) (hi : t.HasTy i τ) :
    Tracks E.model t (env.lowerType? i ctx) (Maybe PrintsTy) (.ofType (E.lowerType? τ ctx)) := by
  rw [Env.lowerType?, he.config, he.depth]
  exact (he.argumentType E.depth).step he.model hi

theorem lowerType (ctx : Context) (hi : t.HasTy i τ) :
    Tracks E.model t (env.lowerType i ctx) PrintsTy (.ofType (E.lowerType τ ctx)) :=
  tracks_orObject (he.lowerType? ctx hi)

/-! ## Type parameters -/

theorem lowerTypes (ctx : Context) (his : Each HasTy t is τs) :
    Tracks E.model t (env.lowerTypes ctx is) (Each PrintsTy) (.ofType (E.lowerTypes ctx τs)) := by
  induction his with
  | nil => exact .typed_pure .nil
  | cons hi _ ih =>
    refine (he.lowerType ctx hi).typed_bind fun u a b hu _ hab => ?_
    refine (ih.later hu).typed_bind fun v as bs hv _ hs => .typed_pure ?_
    exact .cons (Stays.mono hab hv) hs

theorem lowerTypeParam (p : ParamId) :
    Tracks E.model t (env.lowerTypeParam p) (Prints Target.TypeParam.read)
      (.ofType (E.lowerTypeParam p)) := by
  refine .tells (he.model.emittedBounds p) fun u kept hu _ hkept => ?_
  refine ((he.mono hu).lowerTypes .boxed hkept).typed_bind fun v bounds Bounds hv _ hbounds => ?_
  exact .typed_pure (PrintsTypeParam.mk ((he.mono (hu.trans hv)).model.param p).name hbounds)

theorem lowerTypeParams (ps : List ParamId) :
    Tracks E.model t (env.lowerTypeParams ps) (Each (Prints Target.TypeParam.read))
      (.ofType (E.lowerTypeParams ps)) := by
  induction ps with
  | nil => exact .typed_pure .nil
  | cons p ps ih =>
    refine (he.lowerTypeParam p).typed_bind fun u x X hu _ hx => ?_
    refine (ih.later hu).typed_bind fun v xs Xs hv _ hxs => .typed_pure ?_
    exact .cons (Stays.mono hx hv) hxs

theorem valueForm (hi : t.HasTy i τ) :
    Tracks E.model t (env.valueForm i) Same (.ofType (E.valueForm τ)) := by
  refine (he.lowerType .plain hi).typed_bind fun u natural Natural hu _ hnatural => ?_
  refine ((he.mono hu).lowerType .boxed (hi.mono hu)).typed_bind
    fun v boxed Boxed hv hsound hboxed => ?_
  refine .typed_pure ?_
  rw [PrintsTy.same_eq (Stays.mono hnatural hv) hboxed hsound]
  show (if decide (Natural = Boxed) = true then Form.boxed else .raw) = _
  simp only [decide_eq_true_eq]

end HasEnv

end Tables

end Shared

end TreeLowering
