import TreeLowering.Proofs.PoolQuery
import TreeLowering.Proofs.Shared.Model
import TreeLowering.Proofs.Simplification
import TreeLowering.Shared.Query
set_option autoImplicit false

/-!
# Proofs: queries in shared tables

What the queries answer over the tables stands for what they answer among types.
They compare positions where types are compared, and they build the types that are
built.  A search inside one type goes to smaller positions, so it comes to an end.
-/

namespace TreeLowering

theorem Ty.bareParam_of_ne {t : Ty} (h : ∀ p o, t ≠ .inter [.param p, o]) : t.bareParam = t := by
  unfold Ty.bareParam
  split
  · exact absurd rfl (h _ _)
  · rfl

namespace Shared

open Tables Tabled
open TreeLowering.Pooled (Leads Returns)
open TreeLowering.TypePool (Grows)

namespace Tables

variable {t u : Tables} {i j : TypeIdx} {τ σ : Ty}

/-! ## What is read off a node -/

namespace HasTy

variable (hi : t.HasTy i τ)
include hi

theorem decl? : Says t (Tabled.decl? i) τ.decl? :=
  (Tells.nodeAt hi).map fun _ _ _ _ hn => hn.decl?_eq

theorem isOf (d : DeclId) : Says t (Tabled.isOf i d) (τ.isOf d) :=
  (Tells.nodeAt hi).map fun _ _ _ _ hn => hn.isOf_eq d

theorem hint? : Says t (Tabled.hint? i) τ.hint? :=
  (Tells.nodeAt hi).map fun _ _ _ _ hn => hn.hint?_eq

theorem isParam : Says t (Tabled.isParam i) τ.isParam :=
  (Tells.nodeAt hi).map fun _ _ _ _ hn => hn.isParam_eq

theorem isComposite : Says t (Tabled.isComposite i) τ.isComposite :=
  (Tells.nodeAt hi).map fun _ _ _ _ hn => hn.isComposite_eq

theorem isCallable : Says t (Tabled.isCallable i) τ.isCallable := hi.isOf _

theorem args : Tells t (Tabled.args i) (Each HasTy) τ.args :=
  (Tells.nodeAt hi).map fun _ _ _ _ hn => hn.args

/-- Positions are told apart as types are. -/
theorem decide_eq (hj : t.HasTy j σ) (ht : t.Sound) : decide (i = j) = decide (τ = σ) :=
  decide_eq_decide.mpr (hi.eq_iff hj ht)

/-! ## Searches inside a type -/

theorem isOptionalWithin (ht : t.Sound) {fuel : Nat} (hfuel : i.index < fuel) :
    t.pool.isOptionalWithin fuel i = τ.isOptional := by
  induction fuel generalizing i τ with
  | zero => exact absurd hfuel (Nat.not_lt_zero _)
  | succ fuel ih =>
    have hpart : ∀ j ∈ (t.pool.node i).parts, ∀ σ, t.HasTy j σ →
        t.pool.isOptionalWithin fuel j = σ.isOptional := fun j hj σ hσ =>
      ih hσ (Nat.lt_of_lt_of_le (hi.lt_of_mem ht hj) (Nat.le_of_lt_succ hfuel))
    have hnode := hi.holds ht
    unfold TypePool.isOptionalWithin
    generalize t.pool.node i = n at hpart hnode
    cases hnode with
    | nominal => rw [Ty.isOptional]
    | @union cases Cases hparts =>
      rw [Ty.isOptional, Ty.anyOptional_eq_any]
      exact hparts.any_eq hpart
    | inter | param | bottom | error => rfl

theorem segmentsWithin (ht : t.Sound) {fuel : Nat} (hfuel : i.index < fuel) :
    Each HasTy t (t.pool.segmentsWithin fuel i) τ.segments := by
  induction fuel generalizing i τ with
  | zero => exact absurd hfuel (Nat.not_lt_zero _)
  | succ fuel ih =>
    have hpart : ∀ j ∈ (t.pool.node i).parts, ∀ σ, t.HasTy j σ →
        Each HasTy t (t.pool.segmentsWithin fuel j) σ.segments := fun j hj σ hσ =>
      ih hσ (Nat.lt_of_lt_of_le (hi.lt_of_mem ht hj) (Nat.le_of_lt_succ hfuel))
    have hnode := hi.holds ht
    unfold TypePool.segmentsWithin
    generalize t.pool.node i = n at hpart hnode
    cases hnode with
    | nominal hargs houter =>
      rw [Ty.segments]
      cases houter with
      | none => exact .cons hi .nil
      | some ho => exact .cons hi (hpart _ List.mem_cons_self _ ho)
    | union | inter | param | bottom | error => exact .cons hi .nil

theorem isOptional : Says t (Tabled.isOptional i) τ.isOptional :=
  Tells.reading fun _ hu hsound => (hi.mono hu).isOptionalWithin hsound (Nat.lt_succ_self _)

theorem segments : Tells t (Tabled.segments i) (Each HasTy) τ.segments :=
  Tells.reading fun _ hu hsound => (hi.mono hu).segmentsWithin hsound (Nat.lt_succ_self _)

/-! ## Types built from one -/

theorem withoutHint : Tells t (Tabled.withoutHint i) HasTy τ.withoutHint := by
  refine Tells.building fun u hu hsound => ⟨⟨_, _, rfl⟩, ?_⟩
  have hi := hi.mono hu
  have hnode := hi.holds hsound
  -- the type is kept, or it is built once more without its hint
  have hbuilt : ∀ out, u.pool.withoutHint i = out → Grows u.pool out.2 →
      (out.2.size ≤ TypeIdx.count → out.2.Sound ∧ out.2.Reads out.1 τ.withoutHint) →
      Leads TypePool.Sound (Pooled.building (·.withoutHint i)) u.pool
        fun j q => HasTy ⟨q, u.names⟩ j τ.withoutHint := by
    rintro out rfl hgrows hout
    exact .building hgrows hout
  have hkept : u.pool.withoutHint i = (i, u.pool) → τ.withoutHint = τ → _ := fun heq hτ =>
    hbuilt _ heq .refl fun _ => ⟨hsound.pool, by rw [hτ]; exact hi⟩
  unfold TypePool.withoutHint at hbuilt hkept
  generalize u.pool.node i = n at hnode hbuilt hkept
  cases hnode with
  | @nominal d as As o O h hargs houter =>
    cases h with
    | none => exact hkept rfl rfl
    | some h =>
      have hplain : u.Holds (.nominal d as o none) (.nominal d As O none) := .nominal hargs houter
      obtain ⟨hhas, hread⟩ := hplain.reads
      refine hbuilt _ rfl (TypePool.grows_intern _ _) fun hsize => ?_
      rw [Ty.withoutHint, ← hread]
      exact hsound.pool.intern hhas hsize
  | union | inter | param | bottom | error => exact hkept rfl rfl

theorem isExactly (hj : t.HasTy j σ) : Says t (Tabled.isExactly i j) (τ.isExactly σ) := by
  refine hi.withoutHint.bind fun u k hu hsound hk => Tells.pure ?_
  rw [hk.decide_eq (hj.mono hu) hsound]
  rfl

theorem collapse : Tells t (Tabled.collapse i) HasTy τ.collapse := by
  refine (Tells.nodeAt hi).bind fun u n hu _ hn => ?_
  have hi := hi.mono hu
  cases hn with
  | nominal | param | bottom | error => exact Tells.pure hi
  | union hparts =>
    rcases hparts with _ | ⟨ha, _ | _⟩
    · exact Tells.pure hi
    · exact Tells.pure ha
    · exact Tells.pure hi
  | inter hparts =>
    rcases hparts with _ | ⟨ha, _ | _⟩
    · exact Tells.pure hi
    · exact Tells.pure ha
    · exact Tells.pure hi

end HasTy

theorem Each.presentCases {is : List TypeIdx} {τs : List Ty} (his : Each HasTy t is τs) :
    Tells t (Tabled.presentCases is) (Each HasTy) (Ty.presentCases τs) := by
  refine Tells.reading fun u hu hsound => ?_
  replace his : Each HasTy u is τs := Stays.mono his hu
  unfold TypePool.presentCases Ty.presentCases
  induction his with
  | nil => exact .nil
  | @cons i τ is τs hi _ ih =>
    rw [List.filter_cons, List.filter_cons, (hi.holds hsound).isOf_eq]
    split
    · exact .cons hi ih
    · exact ih

namespace HasModel

variable {m : Model} {M : TreeLowering.Model}
variable (hm : t.HasModel m M)
include hm

/-! ## The absent value -/

theorem definite (hi : t.HasTy i τ) : Tells t (m.definite i) HasTy τ.definite := by
  refine (Tells.nodeAt hi).bind fun u n hu _ hn => ?_
  have hi := hi.mono hu
  have hb := hm.builtins.mono hu
  cases hn with
  | inter | param | bottom | error => exact Tells.pure hi
  | @nominal d =>
    unfold Ty.definite
    dsimp only
    split
    · exact Tells.pure hb.object
    · split
      · exact .sound fun _ _ hsound => Tells.pure hsound.hasTy_bottom
      · exact Tells.pure hi
  | @union cases Cases hparts =>
    refine (Each.presentCases hparts).bind fun v kept hv hsound hkept => ?_
    unfold Ty.definite
    dsimp only
    generalize Ty.presentCases Cases = Kept at hkept
    rcases hkept with _ | ⟨ha, _ | ⟨hb', hrest⟩⟩
    · exact Tells.pure hsound.hasTy_bottom
    · refine (Tells.nodeAt ha).bind fun w n hw _ hn => ?_
      have hb := hb.mono (hv.trans hw)
      have ha := ha.mono hw
      dsimp only
      rw [hn.isOf_eq, hn.isParam_eq]
      split
      · exact Tells.pure hb.object
      · split
        · exact Tells.make (.inter (.cons ha (.cons hb.object .nil)))
        · exact ha.withoutHint
    · exact Tells.make (.union (.cons ha (.cons hb' hrest)))

theorem nonNull (hi : t.HasTy i τ) : Tells t (m.nonNull i) HasTy τ.nonNull := by
  refine (Tells.nodeAt hi).bind fun u n hu _ hn => ?_
  have hi := hi.mono hu
  cases hn with
  | inter | param | bottom | error => exact Tells.pure hi
  | @nominal d =>
    unfold Ty.nonNull
    dsimp only
    split
    · exact Tells.pure (hm.builtins.mono hu).object
    · split
      · exact .sound fun _ _ hsound => Tells.pure hsound.hasTy_bottom
      · exact Tells.pure hi
  | @union cases Cases hparts =>
    refine (Each.presentCases hparts).bind fun v kept hv hsound hkept => ?_
    unfold Ty.nonNull
    dsimp only
    generalize Ty.presentCases Cases = Kept at hkept
    rcases hkept with _ | ⟨ha, _ | ⟨hb, hrest⟩⟩
    · exact Tells.pure hsound.hasTy_bottom
    · exact Tells.pure ha
    · exact Tells.make (.union (.cons ha (.cons hb hrest)))

theorem presentPart (hi : t.HasTy i τ) :
    Tells t (m.presentPart i) HasTy (if τ.isOptional then τ.definite else τ) :=
  hi.isOptional.ite' (fun _ => hm.definite hi) fun _ => Tells.pure hi

theorem bareParam (hi : t.HasTy i τ) : Tells t (m.bareParam i) HasTy τ.bareParam := by
  refine (Tells.nodeAt hi).bind fun u n hu hsound hn => ?_
  replace hi := hi.mono hu
  have hkept : (∀ p o, τ ≠ .inter [.param p, o]) → u.HasTy i τ.bareParam := fun h => by
    rwa [Ty.bareParam_of_ne h]
  cases hn with
  | nominal | union | param | bottom | error => exact Tells.pure hi
  | inter hparts =>
    rcases hparts with _ | ⟨ha, _ | ⟨hb, _ | _⟩⟩
    · exact Tells.pure hi
    · exact Tells.pure (hkept fun p o => by simp)
    · rename_i a A b B
      refine ha.isParam.ite (fun hp => ?_) fun hp => ?_
      · cases A with
        | param p =>
          refine Tells.pure ?_
          have hobject := hb.eq_iff (hm.builtins.mono hu).object hsound
          rw [Ty.bareParam]
          split
          · next heq => rwa [if_pos (hobject.mp heq)]
          · next hne => rwa [if_neg (mt hobject.mpr hne)]
        | nominal | union | inter | bottom | error => cases hp
      · refine Tells.pure (hkept fun p o heq => ?_)
        simp only [Ty.inter.injEq, List.cons.injEq] at heq
        rw [heq.1] at hp
        cases hp
    · exact Tells.pure (hkept fun p o => by simp)

theorem simplify (hi : t.HasTy i τ) : Tells t (m.simplify i) HasTy τ.simplify := by
  refine (hm.presentPart hi).bind fun u present hu _ hpresent => ?_
  refine hpresent.collapse.bind fun v only hv _ honly => ?_
  exact (hm.mono (hu.trans hv)).bareParam honly

end HasModel

/-! ## Substitution -/

/-- The arguments in the tables. -/
def HasSubst (t : Tables) (s : PoolSubst) (S : Subst) : Prop :=
  s.Within t.pool ∧ s.read t.pool = S

instance : Stays HasSubst :=
  ⟨fun h hu => ⟨h.1.grows hu.pool, (h.1.read_grows hu.pool).trans h.2⟩⟩

theorem HasTy.subst {s : PoolSubst} {S : Subst} (hi : t.HasTy i τ) (hs : HasSubst t s S) :
    Tells t (Tabled.subst s i) HasTy (τ.subst S) := by
  refine Tells.building fun u hu hsound => ⟨?_, ?_⟩
  · exact s.apply_returns hsound.pool.closed (hi.mono hu).1 (Nat.lt_succ_self _) u.pool .refl
  · obtain ⟨hhas, rfl⟩ := hi.mono hu
    obtain ⟨hwithin, rfl⟩ := Stays.mono hs hu
    exact s.apply_leads _ hsound.pool hhas hwithin

end Tables

end Shared

/-! ## Joining instantiations -/

namespace PooledModel

open Pooled

variable {p : TypePool} (m : PooledModel)

theorem joinArgument_returns (a : ParamId) (column : List TypeIdx) :
    Returns (m.joinArgument a column) p := by
  unfold joinArgument
  split
  · exact (Returns.building _).map _
  · exact (Returns.building _).map _
  · split <;> exact .pure _

theorem joinArguments_returns (as : List ParamId) (rows : List (List TypeIdx)) :
    Returns (m.joinArguments as rows) p := by
  induction as generalizing rows with
  | nil => exact .pure _
  | cons a as ih =>
    refine (m.joinArgument_returns a _).bind (m.joinArgument_interns a _) fun found => ?_
    cases found with
    | none => exact .pure _
    | some i => exact (ih _).map _

/-- Instantiations are joined without going deeper into types. -/
theorem joinInstances_returns (target : DeclId) (found : List TypeIdx) :
    Returns (m.joinInstances target found) p := by
  unfold joinInstances
  split
  · exact (Returns.building _).map _
  · exact .pure _
  · refine Returns.bind (fun q _ => ⟨_, q, rfl⟩) (Interns.reading _) fun n => ?_
    split
    · refine Returns.bind (fun q _ => ⟨_, q, rfl⟩) (Interns.reading _) fun rows => ?_
      refine (m.joinArguments_returns _ rows).bind (m.joinArguments_interns _ rows) fun joined => ?_
      cases joined with
      | none => exact .pure _
      | some args => exact (Returns.building _).map _
    · exact .pure _

end PooledModel

namespace Shared

open Tables Tabled
open TreeLowering.Pooled (Leads Returns)

namespace Tables

variable {t u : Tables} {i j : TypeIdx} {τ σ : Ty} {is : List TypeIdx} {τs : List Ty}

theorem hasTy?_of_answers {p : TypePool} {names : Interner} {found : Option TypeIdx}
    {expected : Option Ty} (h : p.Answers True found expected) :
    Maybe HasTy ⟨p, names⟩ found expected := by
  obtain ⟨hhas, hread⟩ := h
  rw [← hread trivial]
  exact hasTy?_map hhas

theorem Each.filter_bottom (his : Each HasTy t is τs) (ht : t.Sound) :
    Each HasTy t (is.filter (· ≠ .bottom)) (τs.filter (· ≠ .bottom)) := by
  obtain ⟨hhas, rfl⟩ := hasTys_iff.mp his
  rw [← TypePool.map_filter_ne_bottom ht.pool hhas]
  exact hasTys_iff.mpr ⟨fun i hi => hhas i (List.mem_filter.mp hi).1, rfl⟩

theorem Maybe.getD {α β : Type} {S : Tables → α → β → Prop} {o : Option α} {q : Option β} {a : α}
    {b : β} (ho : Maybe S t o q) (h : S t a b) : S t (o.getD a) (q.getD b) := by
  cases ho with
  | none => exact h
  | some hab => exact hab

theorem Maybe.isSome_eq {α β : Type} {S : Tables → α → β → Prop} {o : Option α} {q : Option β}
    (ho : Maybe S t o q) : o.isSome = q.isSome := by
  cases ho <;> rfl

theorem Each.head? {α β : Type} {S : Tables → α → β → Prop} {as : List α} {bs : List β}
    (has : Each S t as bs) : Maybe S t as.head? bs.head? := by
  cases has with
  | nil => exact .none
  | cons ha _ => exact .some ha

namespace HasModel

variable {m : Model} {M : TreeLowering.Model}
variable (hm : t.HasModel m M)
include hm

/-! ## Supertypes -/

theorem pooled_like : m.pooled.Like M where
  typeParams d := (hm.decl d).typeParams.symm
  variance a := (hm.param a).variance.symm
  sequenced a := (hm.param a).sequenced.symm

theorem substitution (hi : t.HasTy i τ) :
    Tells t (m.substitution i) HasSubst (M.substitution τ) := by
  refine Tells.building fun u hu hsound => ?_
  obtain ⟨hhas, rfl⟩ := hi.mono hu
  obtain ⟨s, hrun⟩ :=
    m.pooled.substitution_reads hsound.pool.closed hhas (Nat.lt_succ_self i.index)
  refine ⟨⟨s, u.pool, hrun⟩, ?_⟩
  refine (PooledModel.substitution_leads (C := True) _ hsound.pool hhas
    fun _ => hm.pooled_like).mono fun s q _ hs => ?_
  obtain ⟨rfl, hwithin, hread⟩ := hs
  exact ⟨hwithin, hread trivial⟩

theorem joinInstances (target : DeclId) (his : Each HasTy t is τs) :
    Tells t (m.joinInstances target is) (Maybe HasTy) (M.joinInstances target τs) := by
  refine Tells.building fun u hu hsound =>
    ⟨m.pooled.joinInstances_returns target is u.pool .refl, ?_⟩
  obtain ⟨hhas, rfl⟩ := hasTys_iff.mp (Stays.mono his hu)
  exact (PooledModel.joinInstances_leads (C := True) hsound.pool (fun _ => hm.pooled_like) target
    hhas).mono fun _ _ _ h => hasTy?_of_answers h

theorem bottomInstance (target : DeclId) :
    Tells t (m.bottomInstance target) HasTy (M.bottomInstance target) := by
  refine .sound fun u hu hsound => Tells.make (.nominal ?_ .none)
  rw [(hm.decl target).typeParams]
  exact Each.replicate hsound.hasTy_bottom _

/-- Climbing inside a type, where climbing on from declared supertypes and bounds
is understood. -/
theorem climb {up : TypeIdx → Tabled (Option TypeIdx)} {Up : Ty → Option Ty}
    (hup : ∀ u j σ, t.Within u → u.HasTy j σ → Tells u (up j) (Maybe HasTy) (Up σ))
    (target : DeclId) {depth : Nat} (hi : t.HasTy i τ) (hdepth : i.index < depth) :
    Tells t (m.climb up target depth i) (Maybe HasTy) (M.climb Up target τ) := by
  induction depth generalizing i τ t with
  | zero => exact absurd hdepth (Nat.not_lt_zero _)
  | succ depth ih =>
    -- the parts of the type are at smaller positions, wherever the tables have grown to
    have hparts : ∀ u, t.Within u → u.Sound → ∀ j ∈ (u.pool.node i).parts, ∀ σ, u.HasTy j σ →
        Tells u (m.climb up target depth j) (Maybe HasTy) (M.climb Up target σ) :=
      fun u hu hsound j hj σ hσ => ih (hm.mono hu) (fun v k ρ hv => hup v k ρ (hu.trans hv)) hσ
        (Nat.lt_of_lt_of_le ((hi.mono hu).lt_of_mem hsound hj) (Nat.le_of_lt_succ hdepth))
    refine .sound fun u hu hsound => ?_
    replace hparts := hparts u hu hsound
    replace hup := fun v j σ hv => hup v j σ (hu.trans hv)
    replace hi := hi.mono hu
    replace hm := hm.mono hu
    have hnode : Says u (nodeAt i) (u.pool.node i) :=
      Tells.reading fun v hv _ => hv.pool.node hi.1
    unfold Model.climb
    refine hnode.bind fun v n hv hsound' hn => ?_
    have hholds := hi.holds hsound
    obtain rfl : n = u.pool.node i := hn
    refine Tells.later ?_ hv
    generalize u.pool.node i = n at hparts hholds
    cases hholds with
    | @nominal d as As o O h hargs houter =>
      dsimp only
      rw [TreeLowering.Model.climb]
      split
      · exact Tells.pure (.some hi)
      · refine (hm.substitution hi).bind fun v s hv hsound hs => ?_
        refine Tells.firstOf ((hm.mono hv).supertypes d) fun j σ hσ => ?_
        refine (hσ.subst hs).bind fun w k hw _ hk => ?_
        exact hup w k _ (hv.trans hw) hk
    | @param p =>
      rw [TreeLowering.Model.climb]
      exact Tells.firstOf (hm.param p).bounds fun j σ => hup u j σ (.refl u)
    | inter hbounds =>
      rw [TreeLowering.Model.climb, PooledModel.climbAny_eq_findSome?]
      exact Tells.firstOf (hbounds.with_mem fun j hj _ _ => hj) fun j σ hj => hparts j hj.2 σ hj.1
    | @union cases Cases hcases =>
      rw [TreeLowering.Model.climb, PooledModel.climbEach_eq_mapM]
      have hkept : Each (fun t j σ => HasTy t j σ ∧ j ∈ cases) u (cases.filter (· ≠ .bottom))
          (Cases.filter (· ≠ .bottom)) :=
        (hcases.filter_bottom hsound).with_mem fun j hj _ _ => (List.mem_filter.mp hj).1
      refine (Tells.allOf hkept fun j σ hj => hparts j hj.2 σ hj.1).bind
        fun v found hv _ hfound => ?_
      generalize (Cases.filter (· ≠ .bottom)).mapM (M.climb Up target) = Found at hfound
      cases hfound with
      | none => exact Tells.pure .none
      | some hfound => exact (hm.mono hv).joinInstances target hfound
    | bottom =>
      rw [TreeLowering.Model.climb]
      exact (hm.bottomInstance target).map fun _ _ _ _ h => .some h
    | error =>
      rw [TreeLowering.Model.climb]
      exact Tells.pure .none

theorem supertypeWithin (target : DeclId) (fuel : Nat) (hi : t.HasTy i τ) :
    Tells t (m.supertypeWithin target fuel i) (Maybe HasTy) (M.supertypeWithin target fuel τ) := by
  induction fuel generalizing i τ t with
  | zero =>
    rw [TreeLowering.Model.supertypeWithin_zero]
    exact hm.climb (fun _ _ _ _ _ => Tells.pure .none) target hi (Nat.lt_succ_self _)
  | succ fuel ih =>
    rw [TreeLowering.Model.supertypeWithin_succ]
    exact hm.climb (fun u j σ hu hj => ih (hm.mono hu) hj) target hi (Nat.lt_succ_self _)

theorem climbLimit : m.climbLimit = M.climbLimit := by
  rw [Model.climbLimit, TreeLowering.Model.climbLimit, hm.declCount, hm.paramCount]

theorem supertype? (hi : t.HasTy i τ) (target : DeclId) :
    Tells t (m.supertype? i target) (Maybe HasTy) (M.supertype? τ target) := by
  unfold Model.supertype?
  rw [hm.climbLimit]
  exact hm.supertypeWithin target _ hi

theorem isSubtypeOf (hi : t.HasTy i τ) (target : DeclId) :
    Says t (m.isSubtypeOf i target) (M.isSubtypeOf τ target) := by
  refine (hm.supertype? hi target).map fun u found _ _ hfound => ?_
  unfold TreeLowering.Model.isSubtypeOf
  generalize M.supertype? τ target = Found at hfound
  cases hfound <;> rfl

/-! ## Elements and results -/

theorem firstArgument? (hi : t.HasTy i τ) (target : DeclId) :
    Tells t (m.firstArgument? i target) (Maybe HasTy)
      ((M.supertype? τ target).bind (·.args.head?)) := by
  refine (hm.supertype? hi target).bind fun u found hu _ hfound => ?_
  generalize M.supertype? τ target = Found at hfound
  cases hfound with
  | none => exact Tells.pure .none
  | some hfound => exact hfound.args.map fun _ _ _ _ has => has.head?

theorem iteratedType? (hi : t.HasTy i τ) :
    Tells t (m.iteratedType? i) (Maybe HasTy) (M.iteratedType? τ) := hm.firstArgument? hi _

theorem callableResult? (hi : t.HasTy i τ) :
    Tells t (m.callableResult? i) (Maybe HasTy) (M.callableResult? τ) := hm.firstArgument? hi _

theorem nonemptyIterable? (hi : t.HasTy i τ) :
    Tells t (m.nonemptyIterable? i) (Maybe HasTy) (M.nonemptyIterable? τ) := by
  unfold TreeLowering.Model.nonemptyIterable?
  refine (hm.supertype? hi _).bind fun u found hu _ hfound => ?_
  generalize M.supertype? τ _ = Found at hfound
  cases hfound with
  | none => exact Tells.pure .none
  | @some found Found hfound =>
    refine hfound.args.bind fun v as hv hsound has => ?_
    have hany : as.head?.any (· ≠ .bottom) = Found.args.head?.any (· ≠ .bottom) := by
      generalize Found.args = As at has
      cases has with
      | nil => rfl
      | cons ha _ =>
        exact decide_eq_decide.mpr (not_congr (ha.eq_iff hsound.hasTy_bottom hsound))
    rw [hany, Option.filter_some]
    split
    · exact Tells.pure (.some (hfound.mono hv))
    · exact Tells.pure .none

theorem entryArguments (hi : t.HasTy i τ) :
    Tells t (m.entryArguments i) (Each HasTy) (M.entryArguments τ) := by
  unfold TreeLowering.Model.entryArguments
  refine (hm.supertype? hi _).bind fun u found hu _ hfound => ?_
  generalize M.supertype? τ _ = Found at hfound
  cases hfound with
  | none => exact Tells.pure .nil
  | some hfound => exact hfound.args

/-! ## Erasure -/

theorem isString (hi : t.HasTy i τ) : Says t (m.isString i) τ.isString :=
  hi.isExactly hm.builtins.string

theorem isInteger (hi : t.HasTy i τ) : Says t (m.isInteger i) τ.isInteger :=
  hi.isExactly hm.builtins.integer

theorem isFloat (hi : t.HasTy i τ) : Says t (m.isFloat i) τ.isFloat :=
  hi.isExactly hm.builtins.float

theorem isCharacter (hi : t.HasTy i τ) : Says t (m.isCharacter i) τ.isCharacter :=
  hi.isExactly hm.builtins.character

theorem isPlatformString (hi : t.HasTy i τ) : Says t (m.isPlatformString i) τ.isPlatformString :=
  (hm.nonNull hi).bind fun _ _ _ _ hpresent => hpresent.hint?.bind fun _ _ _ _ hhint =>
    Tells.pure (congrArg (· == some Hint.platformString) hhint)

theorem isTypeParameter (hi : t.HasTy i τ) : Says t (m.isTypeParameter i) τ.isTypeParameter :=
  (hm.nonNull hi).bind fun _ _ _ _ hpresent => hpresent.isParam

theorem erasesToException (hi : t.HasTy i τ) :
    Says t (m.erasesToException i) τ.erasesToException :=
  (hm.simplify hi).bind fun _ _ hu _ hsimple => hsimple.isExactly (hm.mono hu).builtins.exception

theorem iterableShape? (hi : t.HasTy i τ) :
    Tells t (m.iterableShape? i) (Maybe HasTy) (M.iterableShape? τ) :=
  (hm.definite hi).bind fun _ _ hu _ hpresent => (hm.mono hu).nonemptyIterable? hpresent

theorem erasesToObject (hi : t.HasTy i τ) : Says t (m.erasesToObject i) (M.erasesToObject τ) := by
  refine (hm.simplify hi).bind fun u simple hu _ hsimple => ?_
  replace hm := hm.mono hu
  have hshape : Says u (Option.isNone <$> m.iterableShape? simple)
      (M.iterableShape? τ.simplify).isNone := by
    refine (hm.iterableShape? hsimple).map fun v found _ _ hfound => ?_
    generalize M.iterableShape? τ.simplify = Found at hfound
    cases hfound <;> rfl
  unfold TreeLowering.Model.erasesToObject
  generalize τ.simplify = σ at hsimple hshape
  refine (Tells.nodeAt hsimple).bind fun v n hv _ hn => ?_
  cases hn with
  | nominal hargs houter =>
    refine Tells.pure ?_
    cases hargs <;> cases houter <;> rfl
  | union | inter => exact hshape.later hv
  | param | bottom | error => exact Tells.pure rfl

/-- No instantiation is asked about for the bottom type. -/
theorem isSubtypeOf_ne_bottom (hi : t.HasTy i τ) (target : DeclId) :
    Says t (if i = .bottom then pure false else m.isSubtypeOf i target)
      (τ ≠ .bottom && M.isSubtypeOf τ target) := by
  refine .sound fun u hu hsound => ?_
  replace hi := hi.mono hu
  have hbottom := hi.eq_iff hsound.hasTy_bottom hsound
  split
  · next heq =>
    rw [hbottom.mp heq]
    exact Tells.pure rfl
  · next hne =>
    rw [decide_eq_true (mt hbottom.mpr hne), Bool.true_and]
    exact (hm.mono hu).isSubtypeOf hi _

theorem isBoolean (hi : t.HasTy i τ) : Says t (m.isBoolean i) (M.isBoolean τ) :=
  hm.isSubtypeOf_ne_bottom hi _

theorem isArray (hi : t.HasTy i τ) : Says t (m.isArray i) (M.isArray τ) :=
  hm.isSubtypeOf_ne_bottom hi _

theorem isBasic (hi : t.HasTy i τ) : Says t (m.isBasic i) (M.isBasic τ) := by
  unfold TreeLowering.Model.isBasic
  simp only [Bool.or_assoc]
  exact (hm.isString hi).either fun _ => (hm.isBoolean hi).either fun _ =>
    (hm.isInteger hi).either fun _ => (hm.isFloat hi).either fun _ => hm.isCharacter hi

theorem canUnbox (hi : t.HasTy i τ) : Says t (m.canUnbox i) (M.canUnbox τ) :=
  (hm.isBasic hi).either fun _ => hm.isPlatformString hi

end HasModel

end Tables

end Shared

end TreeLowering
