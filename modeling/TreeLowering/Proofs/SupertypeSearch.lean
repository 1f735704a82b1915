import TreeLowering.Proofs.Instantiation
import TreeLowering.Proofs.PoolQuery
import TreeLowering.Proofs.TypeTermination
import TreeLowering.Proofs.UnionInstance
set_option autoImplicit false

/-!
# Proofs: where the search for a supertype ends

A search goes on from a class or interface to its supertypes, with arguments
substituted, and from a type parameter to its bounds.  Substitution leaves the
head of a class or interface as it is, so that where the declared supertypes are
such types, a search follows the graph of their heads and of those of bounds.
Where that graph has no circle, every search ends, within as many steps as there
are declarations and type parameters, and what it answers can be read off the
graph: a class is below exactly the declarations that its own leads to.
-/

namespace TreeLowering

namespace Ty

/-- The declarations and type parameters at the heads of the types that a search
from the type starts with. -/
def heads (t : Ty) : List TyHead := t.tops.filterMap head?

/-- Substitution leaves the head of a class or interface as it is. -/
theorem heads_subst {t : Ty} (ht : t.decl?.isSome = true) (s : Subst) :
    (t.subst s).heads = t.heads := by
  cases t with
  | nominal d as o h => rw [subst, replace]; rfl
  | union _ | inter _ | param _ | bottom | error => contradiction

theorem decl?_subst {t : Ty} {d : DeclId} (ht : t.decl? = some d) (s : Subst) :
    (t.subst s).decl? = some d := by
  rw [subst, decl?_replace _ (by rw [ht]; rfl), ht]

end Ty

namespace Model

variable {m : Model} {target : DeclId} {up up' : Ty → Option Ty}

/-! ## What a search goes on with -/

mutual

/-- The types that a search goes on with, through one declared supertype or
bound each. -/
def onward (m : Model) : Ty → List Ty
  | .nominal d as o h =>
    (m.decl d).supertypes.map fun s => s.subst (m.substitution (.nominal d as o h))
  | .union ts => onwardAll m ts
  | .inter ts => onwardAll m ts
  | .param p => (m.param p).bounds
  | .bottom => []
  | .error => []

/-- What a search goes on with from each type of a list. -/
def onwardAll (m : Model) : List Ty → List Ty
  | [] => []
  | t :: ts => onward m t ++ onwardAll m ts

end

/-- A search from the type ends: no endless sequence of types starts with it, in
which the search goes on from each one with the next. -/
def Ends (m : Model) (t : Ty) : Prop := Acc (fun u t => u ∈ m.onward t) t

mutual

/-- How a climb goes on matters for the types only that it goes on with. -/
theorem climb_eq_of_onward :
    ∀ {t : Ty}, (∀ u ∈ m.onward t, up u = up' u) → m.climb up target t = m.climb up' target t
  | .nominal d as o h, hup => by
    rw [climb, climb]
    dsimp only
    rw [findSome?_congr fun s hs => hup _ (List.mem_map_of_mem hs)]
  | .union ts, hup => by rw [climb, climb, climbEach_eq_of_onward hup]
  | .inter ts, hup => by rw [climb, climb, climbAny_eq_of_onward hup]
  | .param p, hup => by
    rw [climb, climb]
    exact findSome?_congr hup
  | .bottom, _ => by rw [climb, climb]
  | .error, _ => by rw [climb, climb]

theorem climbAny_eq_of_onward :
    ∀ {ts : List Ty}, (∀ u ∈ m.onwardAll ts, up u = up' u) →
      m.climbAny up target ts = m.climbAny up' target ts
  | [], _ => by rw [climbAny, climbAny]
  | t :: ts, hup => by
    rw [climbAny, climbAny, climb_eq_of_onward fun u hu => hup u (List.mem_append_left _ hu),
      climbAny_eq_of_onward fun u hu => hup u (List.mem_append_right _ hu)]

theorem climbEach_eq_of_onward :
    ∀ {ts : List Ty}, (∀ u ∈ m.onwardAll ts, up u = up' u) →
      m.climbEach up target ts = m.climbEach up' target ts
  | [], _ => by rw [climbEach, climbEach]
  | t :: ts, hup => by
    rw [climbEach, climbEach, climb_eq_of_onward fun u hu => hup u (List.mem_append_left _ hu),
      climbEach_eq_of_onward fun u hu => hup u (List.mem_append_right _ hu)]

end

/-! ## The graph of heads -/

/-- A declaration rises to the heads of its supertypes, and a type parameter to
those of its bounds. -/
def RisesTo (m : Model) : TyHead → TyHead → Prop
  | .decl d, h => ∃ s ∈ (m.decl d).supertypes, h ∈ s.heads
  | .param p, h => ∃ b ∈ (m.param p).bounds, h ∈ b.heads

/-- Every declared supertype is a class or interface, and no way through
supertypes and bounds leads back to where it started. -/
structure Hierarchy (m : Model) : Prop where
  nominal : ∀ d, ∀ s ∈ (m.decl d).supertypes, s.decl?.isSome = true
  acyclic : ∀ h, ¬ Relation.TransGen m.RisesTo h h

/-- The declarations and type parameters of the model. -/
def declaredHeads (m : Model) : Finset TyHead :=
  ((Finset.range m.declCount).image fun i => .decl ⟨i⟩) ∪
    (Finset.range m.paramCount).image fun i => .param ⟨i⟩

theorem card_declaredHeads_le (m : Model) :
    m.declaredHeads.card ≤ m.declCount + m.paramCount := by
  refine (Finset.card_union_le _ _).trans (Nat.add_le_add ?_ ?_)
  · exact Finset.card_image_le.trans_eq (Finset.card_range _)
  · exact Finset.card_image_le.trans_eq (Finset.card_range _)

theorem decl_mem_declaredHeads {d : DeclId} {s : Ty} (hs : s ∈ (m.decl d).supertypes) :
    .decl d ∈ m.declaredHeads :=
  Finset.mem_union_left _ <| Finset.mem_image.mpr
    ⟨d.index, Finset.mem_range.mpr (List.mem_range.mp (index_of_supertype hs)), rfl⟩

theorem param_mem_declaredHeads {p : ParamId} {b : Ty} (hb : b ∈ (m.param p).bounds) :
    .param p ∈ m.declaredHeads :=
  Finset.mem_union_right _ <| Finset.mem_image.mpr
    ⟨p.index, Finset.mem_range.mpr (List.mem_range.mp (index_of_bound hb)), rfl⟩

theorem RisesTo.declared {h k : TyHead} (hk : m.RisesTo h k) : h ∈ m.declaredHeads := by
  cases h with
  | decl d =>
    obtain ⟨s, hs, -⟩ := hk
    exact decl_mem_declaredHeads hs
  | param p =>
    obtain ⟨b, hb, -⟩ := hk
    exact param_mem_declaredHeads hb

mutual

/-- What a search goes on with comes from a declared head of the type, which
rises to all its heads. -/
theorem exists_head_of_onward
    (hnominal : ∀ d, ∀ s ∈ (m.decl d).supertypes, s.decl?.isSome = true) {u : Ty} :
    ∀ {t : Ty}, u ∈ m.onward t →
      ∃ h ∈ t.heads, h ∈ m.declaredHeads ∧ ∀ k ∈ u.heads, m.RisesTo h k
  | .nominal d as o hint, hu => by
    obtain ⟨s, hs, rfl⟩ := List.mem_map.mp hu
    refine ⟨.decl d, List.mem_singleton_self _, decl_mem_declaredHeads hs, fun k hk => ?_⟩
    rw [Ty.heads_subst (hnominal d s hs)] at hk
    exact ⟨s, hs, hk⟩
  | .union ts, hu => exists_head_of_onwardAll hnominal hu
  | .inter ts, hu => exists_head_of_onwardAll hnominal hu
  | .param p, hu =>
    ⟨.param p, List.mem_singleton_self _, param_mem_declaredHeads hu, fun _ hk => ⟨u, hu, hk⟩⟩
  | .bottom, hu => by contradiction
  | .error, hu => by contradiction

theorem exists_head_of_onwardAll
    (hnominal : ∀ d, ∀ s ∈ (m.decl d).supertypes, s.decl?.isSome = true) {u : Ty} :
    ∀ {ts : List Ty}, u ∈ m.onwardAll ts →
      ∃ h ∈ (Ty.topsAll ts).filterMap Ty.head?,
        h ∈ m.declaredHeads ∧ ∀ k ∈ u.heads, m.RisesTo h k
  | [], hu => by contradiction
  | t :: ts, hu => by
    rw [Ty.topsAll, List.filterMap_append]
    rcases List.mem_append.mp hu with hu | hu
    · obtain ⟨h, hh, hrises⟩ := exists_head_of_onward hnominal hu
      exact ⟨h, List.mem_append_left _ hh, hrises⟩
    · obtain ⟨h, hh, hrises⟩ := exists_head_of_onwardAll hnominal hu
      exact ⟨h, List.mem_append_right _ hh, hrises⟩

end

/-! ## Heights -/

/-- A height for each head, positive where it is declared, that falls wherever a
head rises to another one. -/
structure Heights (m : Model) (height : TyHead → Nat) : Prop where
  le : ∀ h, height h ≤ m.declCount + m.paramCount
  pos : ∀ h ∈ m.declaredHeads, 0 < height h
  lt : ∀ h k, m.RisesTo h k → height k < height h

theorem Hierarchy.exists_heights (hm : m.Hierarchy) : ∃ height, m.Heights height := by
  obtain ⟨height, hle, hpos, hlt⟩ :=
    exists_height_of_acyclic (fun _ _ hk => RisesTo.declared hk) hm.acyclic
  exact ⟨height, fun h => (hle h).trans m.card_declaredHeads_le, hpos, hlt⟩

namespace Hierarchy

variable {height : TyHead → Nat}

/-- What a search goes on with is lower than where it goes on from. -/
theorem lower (hm : m.Hierarchy) (hheight : m.Heights height) {room : Nat} {t u : Ty}
    (ht : ∀ h ∈ t.heads, height h ≤ room) (hu : u ∈ m.onward t) :
    ∃ below, room = below + 1 ∧ ∀ k ∈ u.heads, height k ≤ below := by
  obtain ⟨h, hh, hdeclared, hrises⟩ := exists_head_of_onward hm.nominal hu
  have hpos := hheight.pos h hdeclared
  have hle := ht h hh
  refine ⟨room - 1, by omega, fun k hk => ?_⟩
  have hlt := hheight.lt h k (hrises k hk)
  omega

theorem ends_of_height (hm : m.Hierarchy) (hheight : m.Heights height) (room : Nat) {t : Ty}
    (ht : ∀ h ∈ t.heads, height h ≤ room) : m.Ends t := by
  induction room generalizing t with
  | zero =>
    refine ⟨t, fun u hu => ?_⟩
    obtain ⟨below, hbelow, -⟩ := hm.lower hheight ht hu
    contradiction
  | succ room ih =>
    refine ⟨t, fun u hu => ?_⟩
    obtain ⟨below, hbelow, hu⟩ := hm.lower hheight ht hu
    cases hbelow
    exact ih hu

/-- More room than a type is high changes nothing about a climb from it. -/
theorem supertypeWithin_of_height (hm : m.Hierarchy) (hheight : m.Heights height)
    {room fuel : Nat} (hfuel : room ≤ fuel) {t : Ty} (ht : ∀ h ∈ t.heads, height h ≤ room) :
    m.supertypeWithin target fuel t = m.supertypeWithin target room t := by
  induction room generalizing fuel t with
  | zero =>
    cases fuel with
    | zero => rfl
    | succ fuel =>
      rw [supertypeWithin_succ, supertypeWithin_zero]
      refine climb_eq_of_onward fun u hu => ?_
      obtain ⟨below, hbelow, -⟩ := hm.lower hheight ht hu
      contradiction
  | succ room ih =>
    obtain ⟨fuel, rfl⟩ := Nat.exists_eq_succ_of_ne_zero (by omega : fuel ≠ 0)
    rw [supertypeWithin_succ, supertypeWithin_succ]
    refine climb_eq_of_onward fun u hu => ?_
    obtain ⟨below, hbelow, hu⟩ := hm.lower hheight ht hu
    cases hbelow
    exact ih (Nat.le_of_succ_le_succ hfuel) hu

theorem ends (hm : m.Hierarchy) (t : Ty) : m.Ends t := by
  obtain ⟨height, hheight⟩ := hm.exists_heights
  exact hm.ends_of_height hheight _ fun h _ => hheight.le h

/-- A search with as much room as there are declarations and type parameters
finds what one with any more room finds. -/
theorem supertypeWithin_eq (hm : m.Hierarchy) {fuel : Nat}
    (hfuel : m.declCount + m.paramCount ≤ fuel) (t : Ty) :
    m.supertypeWithin target fuel t = m.supertype? t target := by
  obtain ⟨height, hheight⟩ := hm.exists_heights
  have ht : ∀ h ∈ t.heads, height h ≤ m.declCount + m.paramCount := fun h _ => hheight.le h
  have hlimit : m.declCount + m.paramCount ≤ m.climbLimit := Nat.le_add_right _ ampleClimb
  rw [supertype?, hm.supertypeWithin_of_height hheight hfuel ht,
    hm.supertypeWithin_of_height hheight hlimit ht]

/-- The search goes on from each supertype and bound as it would start there. -/
theorem supertype?_eq_climb (hm : m.Hierarchy) (t : Ty) :
    m.supertype? t target = m.climb (m.supertype? · target) target t := by
  have hup : m.supertypeWithin target (m.declCount + m.paramCount) = (m.supertype? · target) :=
    funext (hm.supertypeWithin_eq le_rfl)
  rw [← hm.supertypeWithin_eq (Nat.le_succ _), supertypeWithin_succ, hup]

end Hierarchy

/-! ## What a search finds -/

theorem isSubtypeOf_iff {t : Ty} :
    m.isSubtypeOf t target = true ↔ ∃ u, m.supertype? t target = some u := by
  rw [isSubtypeOf, Option.isSome_iff_exists]

namespace Hierarchy

theorem isSubtypeOf_nominal (hm : m.Hierarchy) (d : DeclId) (as : List Ty) (o : Option Ty)
    (hint : Option Hint) : m.isSubtypeOf (.nominal d as o hint) target = true ↔
      d = target ∨ ∃ s ∈ (m.decl d).supertypes,
        m.isSubtypeOf (s.subst (m.substitution (.nominal d as o hint))) target = true := by
  unfold isSubtypeOf
  rw [hm.supertype?_eq_climb, climb]
  by_cases hd : d = target
  · simp [hd]
  · simp [hd, List.isSome_findSome?]

theorem isSubtypeOf_param (hm : m.Hierarchy) (p : ParamId) :
    m.isSubtypeOf (.param p) target = true ↔
      ∃ b ∈ (m.param p).bounds, m.isSubtypeOf b target = true := by
  unfold isSubtypeOf
  rw [hm.supertype?_eq_climb, climb]
  simp [List.isSome_findSome?]

theorem isSubtypeOf_inter (hm : m.Hierarchy) (ts : List Ty) :
    m.isSubtypeOf (.inter ts) target = true ↔ ∃ t ∈ ts, m.isSubtypeOf t target = true := by
  unfold isSubtypeOf
  rw [hm.supertype?_eq_climb, climb, PooledModel.climbAny_eq_findSome?]
  simp [List.isSome_findSome?, ← hm.supertype?_eq_climb]

/-- A class or interface is below exactly what its declaration leads to. -/
theorem isSubtypeOf_iff_reaches (hm : m.Hierarchy) {t : Ty} {d : DeclId} (ht : t.decl? = some d) :
    m.isSubtypeOf t target = true ↔ Relation.ReflTransGen m.DirectlyBelow d target := by
  induction hm.ends t generalizing d with
  | intro t _ ih =>
    cases t with
    | nominal d as o hint =>
      cases ht
      rw [hm.isSubtypeOf_nominal, Relation.ReflTransGen.cases_head_iff]
      refine or_congr Iff.rfl ⟨?_, ?_⟩
      · rintro ⟨s, hs, hfound⟩
        obtain ⟨e, he⟩ := Option.isSome_iff_exists.mp (hm.nominal d s hs)
        have hsubst := Ty.decl?_subst he (m.substitution (.nominal d as o hint))
        exact ⟨e, ⟨s, hs, he⟩, (ih _ (List.mem_map_of_mem hs) hsubst).mp hfound⟩
      · rintro ⟨e, ⟨s, hs, he⟩, hreaches⟩
        have hsubst := Ty.decl?_subst he (m.substitution (.nominal d as o hint))
        exact ⟨s, hs, (ih _ (List.mem_map_of_mem hs) hsubst).mpr hreaches⟩
    | union _ | inter _ | param _ | bottom | error => contradiction

end Hierarchy

/-! ## Unions -/

/-- Without an invariant parameter, argument lists can always be joined. -/
theorem joinArguments_isSome {ps : List ParamId}
    (hps : ∀ p ∈ ps, (m.param p).variance ≠ .invariant) (rows : List (List Ty)) :
    (m.joinArguments ps rows).isSome = true := by
  induction ps generalizing rows with
  | nil => rfl
  | cons p ps ih =>
    obtain ⟨t, ht⟩ : ∃ t, m.joinArgument p (rows.filterMap List.head?) = some t := by
      unfold joinArgument
      cases hvariance : (m.param p).variance with
      | invariant => exact absurd hvariance (hps p List.mem_cons_self)
      | covariant => exact ⟨_, rfl⟩
      | contravariant => exact ⟨_, rfl⟩
    obtain ⟨ts, hts⟩ := Option.isSome_iff_exists.mp
      (ih (fun q hq => hps q (List.mem_cons_of_mem _ hq)) (rows.map List.tail))
    simp only [joinArguments, ht, hts, Option.isSome_some]

theorem joinInstances_isSome
    (htarget : ∀ p ∈ (m.decl target).typeParams, (m.param p).variance ≠ .invariant)
    {found : List Ty} (hfound : ∀ t ∈ found, t.isOf target = true) :
    (m.joinInstances target found).isSome = true := by
  rcases found with _ | ⟨first, _ | ⟨second, rest⟩⟩
  · rfl
  · rfl
  · have hfirst := hfound first List.mem_cons_self
    cases first with
    | nominal d as o hint =>
      simp only [joinInstances, Option.isSome_map]
      exact joinArguments_isSome htarget _
    | union _ | inter _ | param _ | bottom | error => contradiction

theorem isSubtypeOf_union_iff (m : Model)
    (htarget : ∀ p ∈ (m.decl target).typeParams, (m.param p).variance ≠ .invariant)
    (ts : List Ty) : m.isSubtypeOf (.union ts) target = true ↔
      ∀ t ∈ ts, t ≠ .bottom → m.isSubtypeOf t target = true := by
  have hclimbed : ∀ t, t ∈ climbed ts ↔ t ∈ ts ∧ t ≠ .bottom := by simp [climbed]
  simp only [isSubtypeOf_iff, supertype?_union]
  constructor
  · rintro ⟨u, found, hfound, -⟩ t ht hpresent
    obtain ⟨v, -, hv⟩ := exists_of_forall₂ hfound.flip ((hclimbed t).mpr ⟨ht, hpresent⟩)
    exact ⟨v, hv⟩
  · intro h
    let found := (climbed ts).map fun t => (m.supertype? t target).getD .error
    have hfound : List.Forall₂ (fun t u => m.supertype? t target = some u) (climbed ts) found := by
      refine List.forall₂_map_right_iff.mpr (List.forall₂_same.mpr fun t ht => ?_)
      obtain ⟨u, hu⟩ := h t ((hclimbed t).mp ht).1 ((hclimbed t).mp ht).2
      rw [hu]
      rfl
    have hisOf : ∀ u ∈ found, u.isOf target = true := fun u hu => by
      obtain ⟨t, -, ht⟩ := exists_of_forall₂ hfound hu
      exact (m.climbs_isOf target).supertype? trivial ht
    obtain ⟨u, hu⟩ := Option.isSome_iff_exists.mp (joinInstances_isSome htarget hisOf)
    exact ⟨u, found, hfound, hu⟩

/-! ## The search decides subtyping -/

/-- Where declared supertypes are classes or interfaces and no way through
supertypes and bounds leads back to where it started, the search for a supertype
ends, and finds an instantiation of the target if anything.  It finds one for a
class or interface exactly when the target is reached from its declaration, for
a type parameter or an intersection when it finds one for some bound, and for a
union, unless the target has an invariant parameter, when it finds one for every
case other than bottom.  So what is below a declaration is below everything that
the declaration is below. -/
theorem supertype?_decides_subtyping (hm : m.Hierarchy) (target : DeclId) :
    (∀ t, m.Ends t ∧
      (∀ fuel, m.declCount + m.paramCount ≤ fuel →
        m.supertypeWithin target fuel t = m.supertype? t target) ∧
      ∀ u, m.supertype? t target = some u → u.decl? = some target) ∧
    (∀ t d, t.decl? = some d → (m.isSubtypeOf t target = true ↔
      Relation.ReflTransGen m.DirectlyBelow d target)) ∧
    (∀ p, m.isSubtypeOf (.param p) target = true ↔
      ∃ b ∈ (m.param p).bounds, m.isSubtypeOf b target = true) ∧
    (∀ ts, m.isSubtypeOf (.inter ts) target = true ↔ ∃ t ∈ ts, m.isSubtypeOf t target = true) ∧
    ((∀ p ∈ (m.decl target).typeParams, (m.param p).variance ≠ .invariant) →
      ∀ ts, m.isSubtypeOf (.union ts) target = true ↔
        ∀ t ∈ ts, t ≠ .bottom → m.isSubtypeOf t target = true) ∧
    ∀ t u d e, t.decl? = some d → u.decl? = some e → m.isSubtypeOf t e = true →
      m.isSubtypeOf u target = true → m.isSubtypeOf t target = true := by
  refine ⟨fun t => ⟨hm.ends t, fun fuel hfuel => hm.supertypeWithin_eq hfuel t, fun u hu => ?_⟩,
    fun t d ht => hm.isSubtypeOf_iff_reaches ht, hm.isSubtypeOf_param, hm.isSubtypeOf_inter,
    isSubtypeOf_union_iff m, fun t u d e ht hu hte hutarget => ?_⟩
  · simpa [Ty.isOf] using (m.climbs_isOf target).supertype? trivial hu
  · rw [hm.isSubtypeOf_iff_reaches ht] at hte ⊢
    exact hte.trans ((hm.isSubtypeOf_iff_reaches hu).mp hutarget)

/-- A finite check that declared supertypes are classes or interfaces, and that
supertypes and bounds only lead to what comes earlier. -/
theorem hierarchy_of_indexRank
    (hdecls : ∀ i ∈ List.range m.declCount, ∀ s ∈ (m.decl ⟨i⟩).supertypes,
      s.decl?.isSome = true ∧ ∀ h ∈ s.heads, m.indexRank h < m.indexRank (.decl ⟨i⟩))
    (hparams : ∀ i ∈ List.range m.paramCount, ∀ b ∈ (m.param ⟨i⟩).bounds, ∀ h ∈ b.heads,
      m.indexRank h < m.indexRank (.param ⟨i⟩)) : m.Hierarchy where
  nominal d s hs := (hdecls d.index (index_of_supertype hs) s hs).1
  acyclic := by
    have hlower : ∀ h k, m.RisesTo h k → m.indexRank k < m.indexRank h := by
      intro h k hk
      cases h with
      | decl d =>
        obtain ⟨s, hs, hmem⟩ := hk
        exact (hdecls d.index (index_of_supertype hs) s hs).2 k hmem
      | param p =>
        obtain ⟨b, hb, hmem⟩ := hk
        exact hparams p.index (index_of_bound hb) b hb k hmem
    exact not_transGen_of_rank hlower

/-- `Leaf` is below `Pair`, and below no iterable type. -/
theorem leaf_reaches_pair :
    nestedPairs.Hierarchy ∧ Relation.ReflTransGen nestedPairs.DirectlyBelow ⟨25⟩ ⟨22⟩ ∧
      ¬ Relation.ReflTransGen nestedPairs.DirectlyBelow ⟨25⟩ Language.iterable := by
  have hm : nestedPairs.Hierarchy := hierarchy_of_indexRank (by decide) (by decide)
  have hreaches := fun target => (supertype?_decides_subtyping hm target).2.1 leafType ⟨25⟩ rfl
  exact ⟨hm, (hreaches ⟨22⟩).mp (by decide), fun h =>
    absurd ((hreaches Language.iterable).mpr h) (by decide)⟩

end Model

end TreeLowering
