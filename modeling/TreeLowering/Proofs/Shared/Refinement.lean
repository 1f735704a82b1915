import Mathlib.Data.List.Perm.Basic
import Mathlib.Data.Set.List
import Mathlib.Tactic.Lift
import TreeLowering.Backend
import TreeLowering.Proofs.ArgumentWidening
import TreeLowering.Proofs.SameBounds
import TreeLowering.Proofs.Shared.Query
import TreeLowering.Shared.Refinement
set_option autoImplicit false

/-!
# Proofs: refined members in shared tables

The reference that a member's signature is taken from is the same over tables as
among types.  Arguments are compared in whatever order a hash map held them, and an
argument nests less deep than the type it is an argument of, which bounds the
comparison.
-/

namespace TreeLowering

namespace Ty

theorem heightAll_le {ts : List Ty} {bound : Nat} (h : ∀ t ∈ ts, t.height ≤ bound) :
    heightAll ts ≤ bound := by
  induction ts with
  | nil => exact Nat.zero_le _
  | cons t ts ih =>
    obtain ⟨ht, hts⟩ := List.forall_mem_cons.mp h
    rw [heightAll]
    exact Nat.max_le.mpr ⟨ht, ih hts⟩

end Ty

namespace Model

variable {m : Model} {t r : Ty}

/-- What a type gives for a parameter nests less deep than the type. -/
theorem height_lt_of_mem_substitution {e : ParamId × Ty}
    (he : e ∈ (m.substitution t).entries) : e.2.height < t.height := by
  have hget := (Subst.mem_entries_iff (m.substitution_distinct t)).mp he
  exact ((get?_substitution_iff (not_sequenced_of_get? hget)).mp hget).height_lt

/-- One level of the comparison, whose depth does not matter any more. -/
theorem widensArguments_eq_any (h : ∀ p q, t = .param p → r = .param q → False) :
    m.widensArguments t r = (m.substitution t).entries.any fun e =>
      match (m.substitution r).get? e.1 with
      | none => true
      | some other => m.isWidening e.2 other || m.widensArguments e.2 other := by
  have hdeep : m.widensArguments t r = m.widensArgumentsWithin (t.height + 1) t r := by
    rw [Bool.eq_iff_iff, widensArguments_iff, widensArgumentsWithin_iff (Nat.le_succ _)]
  rw [hdeep, widensArgumentsWithin.eq_3 m t r t.height h, Bool.eq_iff_iff, List.any_eq_true,
    List.any_eq_true]
  refine exists_congr fun e => and_congr_right fun he => ?_
  cases (m.substitution r).get? e.1 with
  | none => exact Iff.rfl
  | some other =>
    have hlower := Nat.le_of_lt (height_lt_of_mem_substitution he)
    simp only [Bool.or_eq_true, widensArguments_iff, widensArgumentsWithin_iff hlower]

end Model

/-- Positions are the same up to their order when the types that they hold are. -/
theorem TypePool.Sound.map_ty_perm_iff {p : TypePool} (hp : p.Sound) {is js : List TypeIdx}
    (his : ∀ i ∈ is, p.Has i) (hjs : ∀ j ∈ js, p.Has j) :
    (is.map p.ty).Perm (js.map p.ty) ↔ is.Perm js := by
  have hinj : Function.Injective fun i : { i // p.Has i } => p.ty i :=
    fun i j heq => Subtype.ext (hp.ty_inj i.2 j.2 heq)
  lift is to List { i // p.Has i } using his
  lift js to List { i // p.Has i } using hjs
  rw [List.map_map, List.map_map, List.map_perm_map_iff Subtype.val_injective]
  exact List.map_perm_map_iff hinj

namespace Shared

open Tables Tabled

namespace Tables

variable {t u : Tables} {i j : TypeIdx} {τ σ : Ty}

/-! ## Relations -/

/-- The reference in the tables. -/
structure HasRef (t : Tables) (r : MemberRef) (R : TreeLowering.MemberRef) : Prop where
  decl : r.decl = R.decl
  outer : Maybe HasTy t r.outer R.outer

instance : Stays HasRef := ⟨fun h hu => ⟨h.decl, Stays.mono h.outer hu⟩⟩

/-- The environment in the tables.  A hash map goes through its entries in an order of
its own. -/
structure HasEnv (t : Tables) (env : Env) (E : TreeLowering.Env) : Prop where
  model : t.HasModel env.model E.model
  config : env.config = E.config
  depth : env.depth = E.depth
  order : ∀ s, (env.order s).Perm s

theorem HasEnv.mono {env : Env} {E : TreeLowering.Env} (h : t.HasEnv env E) (hu : t.Within u) :
    u.HasEnv env E :=
  { h with model := h.model.mono hu }

/-- The argument in the tables. -/
def HasArgument (t : Tables) (e : ParamId × TypeIdx) (E : ParamId × Ty) : Prop :=
  e.1 = E.1 ∧ t.HasTy e.2 E.2

theorem maybe_eq_iff {o o' : Option TypeIdx} {O O' : Option Ty} (ho : Maybe HasTy t o O)
    (ho' : Maybe HasTy t o' O') (ht : t.Sound) : o = o' ↔ O = O' := by
  cases ho with
  | none => cases ho' <;> simp
  | some hi =>
    cases ho' with
    | none => simp
    | some hj => rw [Option.some_inj, Option.some_inj, hi.eq_iff hj ht]

theorem HasRef.eq_iff {r s : MemberRef} {R S : TreeLowering.MemberRef} (hr : t.HasRef r R)
    (hs : t.HasRef s S) (ht : t.Sound) : r = s ↔ R = S := by
  obtain ⟨d, o⟩ := r
  obtain ⟨e, q⟩ := s
  obtain ⟨D, O⟩ := R
  obtain ⟨E, Q⟩ := S
  obtain ⟨rfl, ho⟩ := hr
  obtain ⟨rfl, hq⟩ := hs
  rw [MemberRef.mk.injEq, TreeLowering.MemberRef.mk.injEq, maybe_eq_iff ho hq ht]

/-! ## Arguments -/

namespace HasSubst

variable {s : PoolSubst} {S : Subst}

theorem lookup (hs : HasSubst t s S) (p : ParamId) : Maybe HasTy t (s.lookup p) (S.get? p) := by
  obtain ⟨hwithin, rfl⟩ := hs
  rw [PoolSubst.get?_read]
  exact hasTy?_map fun j hj => hwithin.lookup hj

/-- The arguments one by one, in any order. -/
theorem each_of_perm (hs : HasSubst t s S) {es : List (ParamId × TypeIdx)} (h : es.Perm s) :
    ∃ Es, Es.Perm S.entries ∧ Each HasArgument t es Es := by
  obtain ⟨hwithin, rfl⟩ := hs
  refine ⟨es.map fun e => (e.1, t.pool.ty e.2), h.map _, ?_⟩
  refine List.forall₂_map_right_iff.mpr (List.forall₂_same.mpr fun e he => ⟨rfl, ?_, rfl⟩)
  exact hwithin e (h.mem_iff.mp he)

end HasSubst

theorem Each.exists_left {α β : Type} {S : Tables → α → β → Prop} {as : List α} {bs : List β}
    {b : β} (has : Each S t as bs) (hb : b ∈ bs) : ∃ a ∈ as, S t a b := by
  induction has with
  | nil => exact absurd hb List.not_mem_nil
  | @cons a b' as bs hab _ ih =>
    rcases List.mem_cons.mp hb with rfl | hb
    · exact ⟨a, List.mem_cons_self, hab⟩
    · obtain ⟨a, ha, hab⟩ := ih hb
      exact ⟨a, List.mem_cons_of_mem _ ha, hab⟩

/-- Types nest no deeper than their positions, the first of which holds no
instantiation. -/
theorem HasTy.height_le (hi : t.HasTy i τ) (ht : t.Sound) : τ.height ≤ i.index := by
  induction h : i.index using Nat.strongRecOn generalizing i τ with
  | ind k ih =>
    subst h
    have hpart : ∀ j ∈ (t.pool.node i).parts, ∀ σ, t.HasTy j σ → σ.height + 1 ≤ i.index :=
      fun j hj σ hσ => Nat.lt_of_le_of_lt (ih _ (hi.lt_of_mem ht hj) hσ rfl) (hi.lt_of_mem ht hj)
    have hnode := hi.holds ht
    generalize t.pool.node i = n at hpart hnode
    cases hnode with
    | @nominal d as As o O h hargs houter =>
      have hpos : i.index ≠ 0 := by
        intro hzero
        obtain rfl : i = .error := congrArg TypeIdx.mk hzero
        exact absurd ((hi.eq_iff ht.hasTy_error ht).mp rfl) (by simp)
      have hall : Ty.heightAll As ≤ i.index - 1 := by
        refine Ty.heightAll_le fun A hA => ?_
        obtain ⟨a, ha, hread⟩ := hargs.exists_left hA
        exact Nat.le_sub_one_of_lt (hpart a (List.mem_append_right _ ha) A hread)
      have haround : Ty.heightOuter O ≤ i.index - 1 := by
        cases houter with
        | none => exact Nat.zero_le _
        | some ho => exact Nat.le_sub_one_of_lt (hpart _ List.mem_cons_self _ ho)
      rw [Ty.height]
      omega
    | union | inter | param | bottom | error => exact Nat.zero_le _

namespace HasModel

variable {m : Model} {M : TreeLowering.Model} {r s : MemberRef} {R S : TreeLowering.MemberRef}
variable (hm : t.HasModel m M)
include hm

/-! ## References -/

theorem memberRef (hi : t.HasTy i τ) (d : DeclId) :
    Tells t (m.memberRef i d) HasRef (M.memberRef τ d) := by
  unfold Model.memberRef TreeLowering.Model.memberRef
  rw [(hm.decl d).container]
  cases (M.decl d).container with
  | none => exact Tells.pure ⟨rfl, .none⟩
  | some c =>
    rw [Option.bind_some]
    exact (hm.supertype? hi c).map fun _ _ _ _ ho => ⟨rfl, ho⟩

theorem refType (hr : t.HasRef r R) : Tells t (m.refType r) HasTy (M.refType R) := by
  unfold Model.refType TreeLowering.Model.refType
  have hty := (hm.decl r.decl).ty
  rw [hr.decl] at hty ⊢
  have hro := hr.outer
  generalize (m.decl R.decl).ty = o, (M.decl R.decl).ty = O at hty
  generalize r.outer = q, R.outer = Q at hro
  cases hty with
  | none => exact .sound fun u _ hsound => Tells.pure hsound.hasTy_error
  | some hi =>
    cases hro with
    | none => exact Tells.pure hi
    | some ho => exact (hm.substitution ho).bind fun u s hu _ hs => (hi.mono hu).subst hs

theorem ownRef (d : DeclId) : Tells t (m.ownRef d) HasRef (M.ownRef d) := by
  unfold Model.ownRef TreeLowering.Model.ownRef
  rw [hm.enclosingType?]
  cases M.enclosingType? d with
  | none => exact Tells.pure ⟨rfl, .none⟩
  | some c => exact (hm.declaredType c).bind fun u own hu _ hown => (hm.mono hu).memberRef hown d

/-! ## Widening -/

theorem haveSameBounds (ht : t.Sound) (p q : ParamId) :
    m.haveSameBounds p q = M.haveSameBounds p q := by
  obtain ⟨hhas, hread⟩ := hasTys_iff.mp (hm.param p).bounds
  obtain ⟨hhas', hread'⟩ := hasTys_iff.mp (hm.param q).bounds
  have hlength : (m.param p).bounds.length = (M.param p).bounds.length := by
    rw [← hread, List.length_map]
  have hlength' : (m.param q).bounds.length = (M.param q).bounds.length := by
    rw [← hread', List.length_map]
  unfold Model.haveSameBounds TreeLowering.Model.haveSameBounds
  dsimp only
  rw [hlength, hlength', Bool.eq_iff_iff, Bool.and_eq_true, Bool.and_eq_true, beq_iff_eq]
  refine and_congr_right fun h => ?_
  rw [TreeLowering.Model.takesOut_iff_perm (by rw [hlength, hlength', h]),
    TreeLowering.Model.takesOut_iff_perm h, ← hread, ← hread', ht.pool.map_ty_perm_iff hhas hhas']

theorem isWidening (hi : t.HasTy i τ) (hj : t.HasTy j σ) :
    Says t (m.isWidening i j) (M.isWidening τ σ) := by
  refine .sound fun u hu hsound => ?_
  replace hi := hi.mono hu
  replace hm := hm.mono hu
  have hobject := hi.eq_iff hm.builtins.object hsound
  unfold Model.isWidening TreeLowering.Model.isWidening
  split
  · next heq =>
    rw [hobject.mp heq]
    exact Tells.pure rfl
  · next hne =>
    rw [decide_eq_true (mt hobject.mpr hne), Bool.true_and]
    exact (hm.erasesToObject hi).both fun _ => (hm.erasesToObject (hj.mono hu)).no

end HasModel

theorem Holds.eq_param_iff {n : TypeNode} (h : t.Holds n τ) (p : ParamId) :
    n = .param p ↔ τ = .param p := by
  cases h <;> simp

theorem not_both_params {n k : TypeNode} (hn : t.Holds n τ) (hk : t.Holds k σ)
    (h : ∀ p q, n = .param p → k = .param q → False) (p q : ParamId) (hτ : τ = .param p)
    (hσ : σ = .param q) : False :=
  h p q ((hn.eq_param_iff p).mpr hτ) ((hk.eq_param_iff q).mpr hσ)

/-- The case that is reached, as a rule: a kernel that reduced it in place would go on
into the search for a supertype behind it. -/
theorem says_of_some {α γ : Type} {c : Tabled α} {a : α} {f : γ → α} {x : γ}
    (h : Says t c (f x)) : Says t c (match some x with | none => a | some y => f y) := h

namespace HasEnv

variable {env : Env} {E : TreeLowering.Env}
variable (he : t.HasEnv env E)
include he

/-- Arguments are compared to any depth, in whatever order a hash map goes through
them. -/
theorem widensWithin {fuel : Nat} (hi : t.HasTy i τ) (hj : t.HasTy j σ)
    (hfuel : τ.height < fuel) :
    Says t (env.widensWithin fuel i j) (E.model.widensArguments τ σ) := by
  induction fuel generalizing i j τ σ t with
  | zero => exact absurd hfuel (Nat.not_lt_zero _)
  | succ fuel ih =>
    refine (Tells.nodeAt hi).bind fun u n hu _ hn => ?_
    refine (Tells.nodeAt (hj.mono hu)).bind fun v k hv hsound hk => ?_
    replace hi := hi.mono (hu.trans hv)
    replace hj := hj.mono (hu.trans hv)
    replace he := he.mono (hu.trans hv)
    replace hn := hn.mono hv
    split
    · next p q =>
      cases hn
      cases hk
      refine Tells.pure ?_
      rw [he.model.haveSameBounds hsound]
      exact (TreeLowering.Model.widensArgumentsWithin_param _ p q).symm
    · next hnot =>
      rw [TreeLowering.Model.widensArguments_eq_any (not_both_params hn hk hnot)]
      refine (he.model.substitution hi).bind fun w mine hw _ hmine => ?_
      refine ((he.mono hw).model.substitution (hj.mono hw)).bind fun x others hx _ hothers => ?_
      replace he := he.mono (hw.trans hx)
      replace hmine : HasSubst x mine (E.model.substitution τ) := Stays.mono hmine hx
      obtain ⟨Es, hperm, hes⟩ :=
        hmine.each_of_perm ((List.mergeSort_perm (env.order mine) argumentLe).trans (he.order mine))
      rw [← hperm.any_eq]
      -- an argument nests less deep than the type that it is an argument of
      have hlower : Each (fun t e F => HasArgument t e F ∧ F.2.height < fuel) x _ Es :=
        hes.with_mem fun _ _ F hF => Nat.lt_of_lt_of_le
          (TreeLowering.Model.height_lt_of_mem_substitution (hperm.mem_iff.mp hF))
          (Nat.le_of_lt_succ hfuel)
      refine Tells.anyOf hlower fun e F hF => ?_
      obtain ⟨⟨hparam, harg⟩, hheight⟩ := hF
      have hother := hothers.lookup e.1
      rw [hparam] at hother ⊢
      generalize others.lookup F.1 = o, (E.model.substitution σ).get? F.1 = O at hother
      cases hother with
      | none => exact Tells.pure rfl
      | some hother =>
        exact (he.model.isWidening harg hother).either fun _ => ih he harg hother hheight

theorem widensArguments (hi : t.HasTy i τ) (hj : t.HasTy j σ) :
    Says t (env.widensArguments i j) (E.model.widensArguments τ σ) :=
  .sound fun _ hu hsound => (he.mono hu).widensWithin (hi.mono hu) (hj.mono hu)
    (Nat.lt_succ_of_le ((hi.mono hu).height_le hsound))

theorem widensInherited (hi : t.HasTy i τ) (hj : t.HasTy j σ) :
    Says t (env.widensInherited i j) (E.model.widensInherited τ σ) := by
  refine (Tells.nodeAt hi).bind fun u n hu _ hn => ?_
  refine (Tells.nodeAt (hj.mono hu)).bind fun v k hv hsound hk => ?_
  replace hi := hi.mono (hu.trans hv)
  replace hj := hj.mono (hu.trans hv)
  replace he := he.mono (hu.trans hv)
  replace hn := hn.mono hv
  split
  · next p q =>
    cases hn
    cases hk
    refine Tells.pure ?_
    rw [he.model.haveSameBounds hsound]
    simp only [TreeLowering.Model.widensInherited, Same]
  · next hnot =>
    rw [TreeLowering.Model.widensInherited.eq_2 _ _ _ (not_both_params hn hk hnot)]
    refine ((he.model.erasesToObject hj).both fun _ => (he.model.erasesToObject hi).no).ite'
      (fun _ => Tells.pure rfl) fun _ => .sound fun w hw hsound => ?_
    replace hi := hi.mono hw
    replace hj := hj.mono hw
    replace he := he.mono hw
    split
    · next heq =>
      rw [if_pos ((hi.eq_iff hj hsound).mp heq)]
      exact he.widensArguments hi hj
    · next hne =>
      rw [if_neg (mt (hi.eq_iff hj hsound).mpr hne)]
      refine (he.model.definite hj).bind fun x present hx _ hpresent => ?_
      refine hpresent.decl?.bind fun y d hy _ hd => ?_
      obtain rfl : d = σ.definite.decl? := hd
      replace he := he.mono (hx.trans hy)
      replace hpresent := hpresent.mono hy
      cases σ.definite.decl? with
      | none => exact Tells.pure rfl
      | some target =>
        refine (he.model.supertype? (hi.mono (hx.trans hy)) target).bind fun z seen hz _ hseen => ?_
        refine says_of_some (a := true) (f := fun d => match E.model.supertype? τ d with
          | none => true
          | some seen => E.model.widensArguments seen σ.definite) ?_
        generalize E.model.supertype? τ target = Seen at hseen
        cases hseen with
        | none => exact Tells.pure rfl
        | some hseen => exact (he.mono hz).widensArguments hseen (hpresent.mono hz)

end HasEnv

namespace HasModel

variable {m : Model} {M : TreeLowering.Model} {r s : MemberRef} {R S : TreeLowering.MemberRef}
  {n : Name} {x : String} {d : DeclId}
variable (hm : t.HasModel m M)
include hm

/-! ## Candidates -/

theorem superDecls (ht : t.Sound) (d : DeclId) : m.superDecls t.pool d = M.superDecls d := by
  have hsuper := hm.supertypes d
  unfold Model.superDecls TreeLowering.Model.superDecls
  generalize (m.decl d).supertypes = is, (M.decl d).supertypes = τs at hsuper
  induction hsuper with
  | nil => rfl
  | cons hi _ ih => rw [List.filterMap_cons, List.filterMap_cons, (hi.holds ht).decl?_eq, ih]

theorem visitMembers (ht : t.Sound) (hn : t.HasName n x) (fuel : Nat) (d : DeclId)
    (v : TreeLowering.Model.Visit) :
    m.visitMembers t.pool n fuel d v = M.visitMembers x fuel d v := by
  induction fuel generalizing d v with
  | zero => rfl
  | succ fuel ih =>
    rw [Model.visitMembers, TreeLowering.Model.visitMembers, hm.superDecls ht,
      hm.directMember? ht hn]
    simp only [ih]

theorem refinedMembers (hn : t.HasName n x) (d : DeclId) :
    Says t (m.refinedMembers d n) (M.refinedMembers d x) := by
  refine Tells.reading fun u hu hsound => ?_
  show (m.visitMembers u.pool n _ d .start).found = _
  rw [(hm.mono hu).visitMembers hsound (hn.mono hu), hm.declCount]
  rfl

theorem isOpen (hr : t.HasRef r R) : Says t (m.isOpen r) (M.refType R).isTypeParameter :=
  (hm.refType hr).bind fun _ _ hu _ hi => (hm.mono hu).isTypeParameter hi

theorem isKept (hr : t.HasRef r R) : Says t (m.isKept r) (!M.erasesToObject (M.refType R)) :=
  Tells.no ((hm.refType hr).bind fun _ _ hu _ hi => (hm.mono hu).erasesToObject hi)

theorem directInstance? (declaring refined : DeclId) :
    Tells t (m.directInstance? declaring refined) (Maybe HasRef)
      (M.directInstance? declaring refined) := by
  have hty := (hm.decl refined).ty
  unfold Model.directInstance? TreeLowering.Model.directInstance?
  generalize (m.decl refined).ty = o, (M.decl refined).ty = O at hty
  cases hty with
  | none => exact Tells.pure .none
  | some hi =>
    refine hi.isParam.ite' (fun _ => ?_) fun _ => Tells.pure .none
    rw [← List.findSome?_guard, List.findSome?_map]
    refine Tells.firstOf (hm.supertypes declaring) fun s S hs => ?_
    refine (hm.memberRef hs refined).bind fun u r hu _ hr => ?_
    replace hm := hm.mono hu
    exact ((hm.isOpen hr).no.both fun _ => hm.isKept hr).ite' (fun _ => Tells.pure (.some hr))
      fun _ => Tells.pure .none

theorem pickCandidate? {outer : TypeIdx} {Outer : Ty} (ho : t.HasTy outer Outer)
    (declaring refined : DeclId) (candidates : List DeclId) :
    Tells t (m.pickCandidate? outer declaring refined candidates) (Maybe HasRef)
      (M.pickCandidate? Outer declaring refined candidates) := by
  have hcandidates : Each Same t candidates candidates := List.forall₂_same.mpr fun _ _ => rfl
  have hrefs : Tells t (each (m.memberRef outer) candidates) (Each HasRef)
      (candidates.map (M.memberRef Outer)) := by
    refine Tells.each hcandidates fun d e hde => ?_
    obtain rfl : d = e := hde
    exact hm.memberRef ho d
  refine hrefs.bind fun u refs hu _ hrefs => ?_
  unfold TreeLowering.Model.pickCandidate?
  dsimp only
  replace hm := hm.mono hu
  refine (Tells.findOf hrefs fun r R hr => hm.isOpen hr).bind fun v found hv _ hfound => ?_
  generalize List.find? _ _ = Found at hfound
  cases hfound with
  | some hr => exact Tells.pure (.some hr)
  | none =>
    replace hm := hm.mono hv
    replace hrefs : Each HasRef v refs _ := Stays.mono hrefs hv
    refine (Tells.findOf hrefs fun r R hr => hm.isKept hr).bind fun w found hw _ hfound => ?_
    dsimp only
    generalize List.find? _ _ = Found at hfound
    cases hfound with
    | some hr => exact Tells.pure (.some hr)
    | none => exact (hm.mono hw).directInstance? declaring refined

/-! ## Reference to check and reference to emit -/

theorem erasedCandidate? {outer : TypeIdx} {Outer : Ty} (hr : t.HasRef r R)
    (ho : t.HasTy outer Outer) (refined : DeclId) :
    Tells t (m.erasedCandidate? r outer refined) (Maybe HasRef)
      (M.erasedCandidate? R Outer refined) := by
  unfold Model.erasedCandidate? TreeLowering.Model.erasedCandidate?
  rw [hr.decl, hm.enclosingType?]
  cases M.enclosingType? R.decl with
  | none => exact Tells.pure .none
  | some declaring =>
    refine (hm.refType hr).bind fun u i hu _ hi => ?_
    replace hm := hm.mono hu
    refine ((hm.erasesToObject hi).both fun _ => (hm.isTypeParameter hi).no).ite' (fun _ => ?_)
      fun _ => Tells.pure .none
    refine (hm.refinedMembers (hm.decl R.decl).name declaring).bind
      fun v candidates hv _ hfound => ?_
    obtain rfl := hfound
    dsimp only
    split
    · exact (hm.mono hv).pickCandidate? ((ho.mono hu).mono hv) declaring refined _
    · exact Tells.pure .none

theorem refinedRef? (hr : t.HasRef r R) :
    Tells t (m.refinedRef? r) (Maybe HasRef) (M.refinedRef? R) := by
  have houter := hr.outer
  unfold Model.refinedRef? TreeLowering.Model.refinedRef?
  rw [hr.decl, (hm.decl R.decl).refined]
  cases (M.decl R.decl).refined with
  | none => exact Tells.pure .none
  | some refined =>
    dsimp only
    split
    · exact Tells.pure .none
    · generalize hq : r.outer = o, hQ : R.outer = O at houter
      cases houter with
      | none => exact Tells.pure .none
      | some ho =>
        refine (hm.erasedCandidate? hr ho refined).bind fun u found hu _ hfound => ?_
        dsimp only
        generalize M.erasedCandidate? R _ refined = Found at hfound
        cases hfound with
        | some hfound => exact Tells.pure (.some hfound)
        | none =>
          exact ((hm.mono hu).memberRef (ho.mono hu) refined).map fun _ _ _ _ h => .some h

theorem nonWideningType (hr : t.HasRef r R) (hs : t.HasRef s S) :
    Tells t (m.nonWideningType r s) HasTy (M.nonWideningType R S) := by
  refine (hm.refType hr).bind fun u own hu hsound hown => ?_
  replace hr : u.HasRef r R := Stays.mono hr hu
  replace hs : u.HasRef s S := Stays.mono hs hu
  replace hm := hm.mono hu
  unfold TreeLowering.Model.nonWideningType
  split
  · next heq =>
    rw [if_pos ((hr.eq_iff hs hsound).mp heq)]
    exact Tells.pure hown
  · next hne =>
    rw [if_neg (mt (hr.eq_iff hs hsound).mpr hne)]
    refine (hm.refType hs).bind fun v other hv _ hother => ?_
    refine (Tells.nodeAt hother).bind fun w n hw _ hn => ?_
    replace hm := hm.mono (hv.trans hw)
    generalize M.refType S = σ at hother hn
    cases hn with
    | nominal | union | inter | bottom | error => exact Tells.pure (hother.mono hw)
    | @param p =>
      dsimp only
      rw [(hm.param p).owner, hm.isMethod]
      split
      · exact Tells.pure (hown.mono (hv.trans hw))
      · exact Tells.pure (hother.mono hw)

end HasModel

namespace HasEnv

variable {env : Env} {E : TreeLowering.Env} {r s : MemberRef} {R S : TreeLowering.MemberRef}
variable (he : t.HasEnv env E)
include he

theorem comparedType (hr : t.HasRef r R) (hs : t.HasRef s S) (hi : t.HasTy i τ)
    (hj : t.HasTy j σ) :
    Tells t (env.comparedType r s i j) HasTy
      (if σ.isParam && !τ.isParam then E.model.nonWideningType R S else σ) :=
  (hj.isParam.both fun _ => hi.isParam.no).ite' (fun _ => he.model.nonWideningType hr hs)
    fun _ => Tells.pure hj

theorem widensRefined (hr : t.HasRef r R) (hs : t.HasRef s S) :
    Says t (env.widensRefined r s) (E.model.widensRefined R S) := by
  refine (he.model.refType hr).bind fun u own hu _ hown => ?_
  refine ((he.mono hu).model.refType (Stays.mono hs hu)).bind fun v other hv _ hother => ?_
  replace he := he.mono (hu.trans hv)
  replace hr : v.HasRef r R := Stays.mono hr (hu.trans hv)
  replace hs : v.HasRef s S := Stays.mono hs (hu.trans hv)
  replace hown := hown.mono hv
  exact (he.model.isWidening hown hother).either fun _ =>
    (he.comparedType hr hs hown hother).bind fun w compared hw _ hcompared =>
      (he.mono hw).widensInherited (hown.mono hw) hcompared

theorem nonWideningRef (hr : t.HasRef r R) :
    Tells t (env.nonWideningRef r) HasRef (E.model.nonWideningRef R) := by
  refine (he.model.refinedRef? hr).bind fun u found hu _ hfound => ?_
  unfold TreeLowering.Model.nonWideningRef
  generalize E.model.refinedRef? R = Found at hfound
  have hr : u.HasRef r R := Stays.mono hr hu
  cases hfound with
  | none => exact Tells.pure hr
  | some hs =>
    exact ((he.mono hu).widensRefined hr hs).ite' (fun _ => Tells.pure hs) fun _ => Tells.pure hr

/-- The result type that a function's method declares. -/
theorem resultType (d : DeclId) :
    Tells t (env.resultType d) HasTy (E.model.resultType d) := by
  refine (he.model.ownRef d).bind fun u own hu _ hown => ?_
  refine ((he.mono hu).nonWideningRef hown).bind fun v r hv _ hr => ?_
  exact (he.mono (hu.trans hv)).model.refType hr

end HasEnv

end Tables

end Shared

end TreeLowering
