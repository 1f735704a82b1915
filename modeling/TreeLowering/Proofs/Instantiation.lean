import TreeLowering.Proofs.ParameterScope
import Mathlib.Data.Finset.Card
import Mathlib.Logic.Relation
set_option autoImplicit false

/-!
# Proofs: supertypes of instantiated types

A climb substitutes the arguments of a type into each supertype that it goes
on from.  Substituting further arguments first, into the type, or last, into
the supertype that is found, comes to the same, provided that each type on the
way has an argument for every parameter that its supertypes mention.  Types with
all their arguments are such types when declared supertypes have all of theirs
and mention nothing out of scope.

Where no declaration is above itself, a climb goes through each declaration once
at most, so that the room left for it does not matter.
-/

namespace TreeLowering

namespace Ty

mutual

/-- Only what is put in for the parameters of a type matters to it. -/
theorem replace_congr {f g : ParamId → Ty} :
    ∀ {t : Ty}, (∀ p, t.Mentions p → f p = g p) → t.replace f = t.replace g
  | nominal d as o h, hfg => by
    have hinside : ∀ p, param p ∈ partsAll as ∨ param p ∈ partsAround o → f p = g p :=
      fun p hp => hfg p <| by
        rw [Mentions, parts]
        exact List.mem_cons_of_mem _ (List.mem_append.mpr hp)
    rw [replace, replace, replaceAll_congr fun p hp => hinside p (.inl hp),
      replaceOuter_congr fun p hp => hinside p (.inr hp)]
  | union ts, hfg => by
    rw [replace, replace, replaceAll_congr fun p hp => hfg p (List.mem_cons_of_mem _ hp)]
  | inter ts, hfg => by
    rw [replace, replace, replaceAll_congr fun p hp => hfg p (List.mem_cons_of_mem _ hp)]
  | param p, hfg => by
    rw [replace, replace, hfg p (self_mem_parts _)]
  | bottom, _ => by rw [replace, replace]
  | error, _ => by rw [replace, replace]

theorem replaceAll_congr {f g : ParamId → Ty} :
    ∀ {ts : List Ty}, (∀ p, param p ∈ partsAll ts → f p = g p) → replaceAll f ts = replaceAll g ts
  | [], _ => rfl
  | t :: ts, hfg => by
    rw [replaceAll, replaceAll, replace_congr fun p hp => hfg p (List.mem_append_left _ hp),
      replaceAll_congr fun p hp => hfg p (List.mem_append_right _ hp)]

theorem replaceOuter_congr {f g : ParamId → Ty} :
    ∀ {o : Option Ty}, (∀ p, param p ∈ partsAround o → f p = g p) →
      replaceOuter f o = replaceOuter g o
  | none, _ => rfl
  | some t, hfg => by
    rw [replaceOuter, replaceOuter, replace_congr hfg]

end

theorem decl?_replace (f : ParamId → Ty) {t : Ty} (ht : t.decl?.isSome = true) :
    (t.replace f).decl? = t.decl? := by
  cases t with
  | nominal d as o h => rw [replace, decl?, decl?]
  | union _ | inter _ | param _ | bottom | error => contradiction

end Ty

/-- The second arguments give all that the first ones give, with parameters
replaced. -/
def Subst.Follows (f : ParamId → Ty) (s s' : Subst) : Prop :=
  ∀ p u, s.get? p = some u → s'.get? p = some (u.replace f)

namespace Subst.Follows

variable {f : ParamId → Ty} {s s' : Subst}

theorem insert (h : s.Follows f s') (p : ParamId) (t : Ty) :
    (s.insert p t).Follows f (s'.insert p (t.replace f)) := by
  intro q u hq
  rw [get?_insert] at hq ⊢
  split at hq
  · rename_i hp
    cases hq
    rw [if_pos hp]
  · rename_i hp
    rw [if_neg hp]
    exact h q u hq

theorem insertAll (h : s.Follows f s') (entries : List (ParamId × Ty)) :
    (s.insertAll entries).Follows f
      (s'.insertAll (entries.map fun e => (e.1, e.2.replace f))) := by
  unfold Subst.insertAll
  induction entries generalizing s s' with
  | nil => exact h
  | cons e rest ih => exact ih (h.insert e.1 e.2)

end Subst.Follows

namespace Model

variable {m : Model} {t : Ty} {target : DeclId} {up : Ty → Option Ty}

/-! ## Arguments with parameters replaced -/

theorem bindSegment_follows {f : ParamId → Ty} {s s' : Subst} (h : s.Follows f s') (d : DeclId)
    (as : List Ty) (o o' : Option Ty) (hint : Option Hint) :
    (m.bindSegment (.nominal d as o hint) s).Follows f
      (m.bindSegment (.nominal d (as.map (Ty.replace f)) o' hint) s') := by
  have hzip : ((m.decl d).typeParams.zip (as.map (Ty.replace f))).filter
      (fun e => !(m.param e.1).sequenced) =
        (((m.decl d).typeParams.zip as).filter fun e => !(m.param e.1).sequenced).map
          fun e => (e.1, e.2.replace f) := by
    rw [List.zip_map_right, List.filter_map]
    rfl
  simp only [bindSegment, hzip]
  exact h.insertAll _

/-- The arguments of a type in which parameters were replaced give what the
arguments of the type gave, with the parameters replaced. -/
theorem substitution_follows (f : ParamId → Ty) :
    ∀ t : Ty, (m.substitution t).Follows f (m.substitution (t.replace f))
  | .nominal d as none hint => by
    have hempty : Subst.empty.Follows f .empty := by rintro p u ⟨⟩
    rw [Ty.replace, Ty.replaceAll_eq_map, Ty.replaceOuter]
    simp only [substitution, Ty.segments, Ty.segmentsAround, List.foldr]
    exact bindSegment_follows hempty d as none none hint
  | .nominal d as (some q) hint => by
    rw [Ty.replace, Ty.replaceAll_eq_map, Ty.replaceOuter]
    simp only [substitution, Ty.segments, Ty.segmentsAround, List.foldr]
    exact bindSegment_follows (substitution_follows f q) d as _ _ hint
  | .union _ | .inter _ | .param _ | .bottom | .error => by
    intro p u hp
    simp [substitution, Ty.segments, bindSegment, Subst.get?_empty] at hp

/-! ## Types that leave nothing open -/

/-- A class or interface with an argument for every parameter that its
supertypes mention. -/
structure Instantiated (m : Model) (t : Ty) : Prop where
  nominal : t.decl?.isSome = true
  closed : ∀ p, ¬ m.LeavesOpen t p

/-- Every declared supertype is such a class or interface. -/
def InstantiatedSupertypes (m : Model) : Prop :=
  ∀ d, ∀ s ∈ (m.decl d).supertypes, m.Instantiated s

theorem Instantiated.replace (h : m.Instantiated t) (f : ParamId → Ty) :
    m.Instantiated (t.replace f) where
  nominal := by rw [Ty.decl?_replace f h.nominal, h.nominal]
  closed p hp := h.closed p (hp.of_replace (by
    cases t with
    | param _ => exact absurd h.nominal (by simp [Ty.decl?])
    | nominal _ _ _ _ | union _ | inter _ | bottom | error => rfl))

/-- A supertype of an instantiated type, with parameters replaced, is that
supertype of the type with the parameters replaced. -/
theorem Instantiated.replace_supertype (h : m.Instantiated t) {d : DeclId} (hd : t.decl? = some d)
    {s : Ty} (hs : s ∈ (m.decl d).supertypes) (f : ParamId → Ty) :
    (s.subst (m.substitution t)).replace f = s.subst (m.substitution (t.replace f)) := by
  unfold Ty.subst
  rw [Ty.replace_replace]
  refine Ty.replace_congr fun p hp => ?_
  cases hget : (m.substitution t).get? p with
  | none => exact absurd ⟨hget, d, hd, s, hs, hp⟩ (h.closed p)
  | some u =>
    rw [m.substitution_follows f t p u hget]
    rfl

/-! ## Climbs -/

theorem findSome?_congr {α β : Type} {f g : α → Option β} {xs : List α}
    (h : ∀ x ∈ xs, f x = g x) : xs.findSome? f = xs.findSome? g := by
  have hmap := congrArg (List.findSome? id) (List.map_congr_left h)
  simpa only [List.findSome?_map, Function.id_comp] using hmap

/-- From a class or interface, it matters only how a climb goes on from the
supertypes. -/
theorem climb_congr {up' : Ty → Option Ty} {d : DeclId} {as : List Ty} {o : Option Ty}
    {hint : Option Hint}
    (h : ∀ s ∈ (m.decl d).supertypes, up (s.subst (m.substitution (.nominal d as o hint))) =
      up' (s.subst (m.substitution (.nominal d as o hint)))) :
    m.climb up target (.nominal d as o hint) = m.climb up' target (.nominal d as o hint) := by
  rw [climb, climb]
  dsimp only
  rw [findSome?_congr h]

/-- A step of a climb: where climbing on commutes with replacing parameters, so
does climbing from an instantiated type. -/
theorem climb_replace (hm : m.InstantiatedSupertypes) (f : ParamId → Ty)
    (hup : ∀ u, m.Instantiated u → up (u.replace f) = (up u).map (Ty.replace f))
    (ht : m.Instantiated t) :
    m.climb up target (t.replace f) = (m.climb up target t).map (Ty.replace f) := by
  cases t with
  | nominal d as o hint =>
    have hsup : ∀ s ∈ (m.decl d).supertypes,
        up (s.subst (m.substitution ((Ty.nominal d as o hint).replace f))) =
          (up (s.subst (m.substitution (.nominal d as o hint)))).map (Ty.replace f) := by
      intro s hs
      rw [← ht.replace_supertype rfl hs f]
      exact hup _ ((hm d s hs).replace _)
    rw [Ty.replace] at hsup ⊢
    rw [climb, climb]
    by_cases hd : d = target
    · simp [hd, Ty.replace]
    · rw [if_neg hd, if_neg hd, List.map_findSome?]
      exact findSome?_congr hsup
  | union _ | inter _ | param _ | bottom | error => exact absurd ht.nominal (by simp [Ty.decl?])

/-- A climb of any length commutes with replacing parameters. -/
theorem supertypeWithin_replace (hm : m.InstantiatedSupertypes) (f : ParamId → Ty) (fuel : Nat)
    (ht : m.Instantiated t) : m.supertypeWithin target fuel (t.replace f) =
      (m.supertypeWithin target fuel t).map (Ty.replace f) := by
  induction fuel generalizing t with
  | zero =>
    rw [supertypeWithin_zero, supertypeWithin_zero]
    exact climb_replace hm f (fun _ _ => rfl) ht
  | succ fuel ih =>
    rw [supertypeWithin_succ, supertypeWithin_succ]
    exact climb_replace hm f (fun _ hu => ih hu) ht

/-! ## Room for a climb -/

/-- Where no way leads back to where it started, a node is higher than those that
it leads to: its height is the number of nodes that it reaches, itself included. -/
theorem exists_height_of_acyclic {α : Type} {r : α → α → Prop} {nodes : Finset α}
    (hnodes : ∀ a b, r a b → a ∈ nodes) (hacyclic : ∀ a, ¬ Relation.TransGen r a a) :
    ∃ height : α → Nat, (∀ a, height a ≤ nodes.card) ∧ (∀ a ∈ nodes, 0 < height a) ∧
      ∀ a b, r a b → height b < height a := by
  classical
  let reached (a : α) : Finset α := nodes.filter fun x => Relation.ReflTransGen r a x
  have hself : ∀ a ∈ nodes, a ∈ reached a := fun a ha =>
    Finset.mem_filter.mpr ⟨ha, .refl⟩
  refine ⟨fun a => (reached a).card, fun a => Finset.card_filter_le _ _,
    fun a ha => Finset.card_pos.mpr ⟨a, hself a ha⟩, fun a b hab => ?_⟩
  refine Finset.card_lt_card ((Finset.ssubset_iff_of_subset fun x hx => ?_).mpr
    ⟨a, hself a (hnodes a b hab), fun hback => ?_⟩)
  · obtain ⟨hx, hreach⟩ := Finset.mem_filter.mp hx
    exact Finset.mem_filter.mpr ⟨hx, hreach.head hab⟩
  · exact hacyclic a (.head' hab (Finset.mem_filter.mp hback).2)

/-- Where every step goes down in rank, no way leads back to where it started. -/
theorem not_transGen_of_rank {α : Type} {r : α → α → Prop} {rank : α → Nat}
    (hlower : ∀ a b, r a b → rank b < rank a) (a : α) : ¬ Relation.TransGen r a a := by
  intro hback
  have hranked : ∀ b, Relation.TransGen r a b → rank b < rank a := by
    intro b hb
    induction hb with
    | single hab => exact hlower _ _ hab
    | tail _ hbc ih => exact (hlower _ _ hbc).trans ih
  exact Nat.lt_irrefl _ (hranked a hback)

/-- The first declaration has an instantiation of the second one among its
supertypes. -/
def DirectlyBelow (m : Model) (d e : DeclId) : Prop :=
  ∃ s ∈ (m.decl d).supertypes, s.decl? = some e

/-- Where no declaration is above itself, a declaration is higher than its
supertypes, and no higher than there are declarations. -/
theorem Acyclic.exists_height (h : m.Acyclic) : ∃ height : DeclId → Nat,
    (∀ d, height d ≤ m.declCount) ∧
      ∀ d, ∀ s ∈ (m.decl d).supertypes, ∀ e ∈ s.decl?, height e < height d := by
  obtain ⟨rank, hrank, _⟩ := h
  have hlower : ∀ d e, m.DirectlyBelow d e → rank (.decl e) < rank (.decl d) := by
    rintro d e ⟨s, hs, he⟩
    refine hrank d s hs _ ?_
    cases s with
    | nominal d' as o hint => cases he; rfl
    | union _ | inter _ | param _ | bottom | error => contradiction
  have hdeclared : ∀ d e, m.DirectlyBelow d e →
      d ∈ (Finset.range m.declCount).image DeclId.mk := by
    rintro d e ⟨s, hs, -⟩
    have hd := List.mem_range.mp (index_of_supertype hs)
    exact Finset.mem_image.mpr ⟨d.index, Finset.mem_range.mpr hd, rfl⟩
  obtain ⟨height, hbound, -, hheight⟩ :=
    exists_height_of_acyclic hdeclared (not_transGen_of_rank hlower)
  exact ⟨height, fun d => (hbound d).trans (Finset.card_image_le.trans_eq (Finset.card_range _)),
    fun d s hs e he => hheight d e ⟨s, hs, he⟩⟩

/-- More room than a class or interface is high changes nothing about a climb
from it. -/
theorem supertypeWithin_of_height (hm : m.InstantiatedSupertypes) {height : DeclId → Nat}
    (hheight : ∀ d, ∀ s ∈ (m.decl d).supertypes, ∀ e ∈ s.decl?, height e < height d)
    {room fuel : Nat} (hfuel : room ≤ fuel) {d : DeclId} (hd : height d ≤ room) (as : List Ty)
    (o : Option Ty) (hint : Option Hint) :
    m.supertypeWithin target fuel (.nominal d as o hint) =
      m.supertypeWithin target room (.nominal d as o hint) := by
  induction room generalizing fuel d as o hint with
  | zero =>
    have hnone : ∀ s, s ∉ (m.decl d).supertypes := fun s hs => by
      obtain ⟨e, he⟩ := Option.isSome_iff_exists.mp (hm d s hs).nominal
      exact Nat.not_lt_zero _ ((hheight d s hs e he).trans_le hd)
    cases fuel with
    | zero => rfl
    | succ fuel =>
      rw [supertypeWithin_succ, supertypeWithin_zero]
      exact climb_congr fun s hs => absurd hs (hnone s)
  | succ room ih =>
    obtain ⟨fuel, rfl⟩ := Nat.exists_eq_succ_of_ne_zero (by omega : fuel ≠ 0)
    rw [supertypeWithin_succ, supertypeWithin_succ]
    refine climb_congr fun s hs => ?_
    have hnominal := (hm d s hs).nominal
    cases s with
    | nominal e as' o' hint' =>
      have hlower := hheight d _ hs e rfl
      rw [Ty.subst, Ty.replace]
      exact ih (Nat.le_of_succ_le_succ hfuel) (by omega) _ _ _
    | union _ | inter _ | param _ | bottom | error => contradiction

/-- Where no declaration is above itself, more room than there are declarations
changes nothing about a climb from a class or interface. -/
theorem supertypeWithin_of_acyclic (hm : m.InstantiatedSupertypes) (hacyclic : m.Acyclic)
    (ht : t.decl?.isSome = true) {fuel : Nat} (hfuel : m.declCount ≤ fuel) :
    m.supertypeWithin target fuel t = m.supertypeWithin target m.declCount t := by
  obtain ⟨height, hbound, hheight⟩ := hacyclic.exists_height
  cases t with
  | nominal d as o hint => exact supertypeWithin_of_height hm hheight hfuel (hbound d) as o hint
  | union _ | inter _ | param _ | bottom | error => contradiction

/-! ## Types with all their arguments -/

/-- The type parameters of a declaration and of those around it, without the
ones that take any number of arguments. -/
def singleParams (m : Model) (d : DeclId) : List ParamId :=
  ((d :: m.containers d).flatMap fun e => (m.decl e).typeParams).filter fun p =>
    !(m.param p).sequenced

/-- A class or interface that has, by itself or from the types around it, an
argument for each type parameter of its declaration and of those around it. -/
structure FullyApplied (m : Model) (t : Ty) : Prop where
  nominal : t.decl?.isSome = true
  supplied : ∀ d ∈ t.decl?, ∀ p ∈ m.singleParams d, p ∈ t.segments.flatMap m.boundParams

/-- Each declared supertype is fully applied, and mentions only type parameters
of its declaration and of those around it. -/
structure AppliedSupertypes (m : Model) : Prop where
  applied : ∀ d, ∀ s ∈ (m.decl d).supertypes, m.FullyApplied s
  inScope : ∀ d, ∀ s ∈ (m.decl d).supertypes, ∀ p, s.Mentions p → p ∈ m.singleParams d

theorem fullyApplied_iff : m.FullyApplied t ↔ t.decl?.isSome = true ∧
    ∀ d ∈ t.decl?, ∀ p ∈ m.singleParams d, p ∈ t.segments.flatMap m.boundParams :=
  ⟨fun h => ⟨h.nominal, h.supplied⟩, fun h => ⟨h.1, h.2⟩⟩

instance (m : Model) (t : Ty) : Decidable (m.FullyApplied t) :=
  decidable_of_iff _ fullyApplied_iff.symm

/-- A finite check of the declared supertypes. -/
theorem appliedSupertypes_of_range
    (h : ∀ i ∈ List.range m.declCount, ∀ s ∈ (m.decl ⟨i⟩).supertypes, m.FullyApplied s ∧
      ∀ c ∈ s.parts, c.isParam = true → c ∈ (m.singleParams ⟨i⟩).map .param) :
    m.AppliedSupertypes := by
  constructor
  · intro d s hs
    exact (h d.index (index_of_supertype hs) s hs).1
  · intro d s hs p hp
    simpa using (h d.index (index_of_supertype hs) s hs).2 _ hp rfl

namespace AppliedSupertypes

theorem instantiated (hm : m.AppliedSupertypes) (ht : m.FullyApplied t) : m.Instantiated t where
  nominal := ht.nominal
  closed p := by
    rintro ⟨hnone, d, hd, s, hs, hp⟩
    obtain ⟨segment, hsegment, hbound⟩ :=
      List.mem_flatMap.mp (ht.supplied d hd p (hm.inScope d s hs p hp))
    exact substitution_eq_none.mp hnone segment hsegment hbound

theorem instantiatedSupertypes (hm : m.AppliedSupertypes) : m.InstantiatedSupertypes :=
  fun d s hs => hm.instantiated (hm.applied d s hs)

end AppliedSupertypes

/-- In an acyclic model whose declared supertypes are fully applied, the
supertype of a fully applied type with arguments substituted is its supertype
with the arguments substituted, and there is one exactly when there is the
other.  Neither is cut short: more room than there are declarations changes
nothing. -/
theorem supertype?_subst (hm : m.AppliedSupertypes) (hacyclic : m.Acyclic)
    (ht : m.FullyApplied t) (target : DeclId) (s : Subst) :
    m.supertype? (t.subst s) target = (m.supertype? t target).map (Ty.subst s) ∧
      ∀ fuel, m.declCount ≤ fuel →
        m.supertypeWithin target fuel t = m.supertype? t target ∧
          m.supertypeWithin target fuel (t.subst s) = m.supertype? (t.subst s) target := by
  have hsupertypes := hm.instantiatedSupertypes
  have hinstantiated := hm.instantiated ht
  have hlimit : m.declCount ≤ m.climbLimit := by
    rw [climbLimit, Nat.add_assoc]
    exact Nat.le_add_right _ _
  have hroom : ∀ u : Ty, m.Instantiated u → ∀ fuel, m.declCount ≤ fuel →
      m.supertypeWithin target fuel u = m.supertype? u target := fun u hu fuel hfuel => by
    rw [supertype?, supertypeWithin_of_acyclic hsupertypes hacyclic hu.nominal hfuel,
      supertypeWithin_of_acyclic hsupertypes hacyclic hu.nominal hlimit]
  exact ⟨supertypeWithin_replace hsupertypes _ _ hinstantiated, fun fuel hfuel =>
    ⟨hroom t hinstantiated fuel hfuel, hroom _ (hinstantiated.replace _) fuel hfuel⟩⟩

/-- `interface Pair<A, B>`, and a class `Outer<T>` with classes
`Inner<U> satisfies Pair<T, U>` and `Leaf<V> extends Inner<Iterable<V>>` inside. -/
def nestedPairs : Model where
  decls := #[
    { Declaration.bare "Pair" .iface "demo" none with typeParams := [⟨10⟩, ⟨11⟩] },
    { Declaration.bare "Outer" .cls "demo" none with
      typeParams := [⟨12⟩], extended := some Language.objectTy },
    { Declaration.bare "Inner" .cls "demo" (some ⟨23⟩) with
      typeParams := [⟨13⟩], extended := some Language.objectTy
      satisfied := [.of ⟨22⟩ [.param ⟨12⟩, .param ⟨13⟩]] },
    { Declaration.bare "Leaf" .cls "demo" (some ⟨23⟩) with
      typeParams := [⟨14⟩]
      extended := some (.nominal ⟨24⟩ [.of Language.iterable [.param ⟨14⟩]]
        (some (.of ⟨23⟩ [.param ⟨12⟩])) none) }]
  params := #[
    ⟨"A", .covariant, [], ⟨22⟩, false⟩,
    ⟨"B", .covariant, [], ⟨22⟩, false⟩,
    ⟨"T", .covariant, [], ⟨23⟩, false⟩,
    ⟨"U", .covariant, [], ⟨24⟩, false⟩,
    ⟨"V", .covariant, [], ⟨25⟩, false⟩]

/-- `Outer<A>.Leaf<Integer>` -/
def leafType : Ty := .nominal ⟨25⟩ [Language.integerTy] (some (.of ⟨23⟩ [.param ⟨10⟩])) none

theorem leafType_pair_subst :
    nestedPairs.AppliedSupertypes ∧ nestedPairs.Acyclic ∧ nestedPairs.FullyApplied leafType ∧
      nestedPairs.supertype? (leafType.subst ⟨[(⟨10⟩, Language.stringTy)]⟩) ⟨22⟩ =
        some (.of ⟨22⟩ [Language.stringTy, .of Language.iterable [Language.integerTy]]) := by
  have hm : nestedPairs.AppliedSupertypes := appliedSupertypes_of_range (by decide)
  have hacyclic : nestedPairs.Acyclic := acyclic_of_indexRank (by decide) (by decide)
  have ht : nestedPairs.FullyApplied leafType := by decide
  refine ⟨hm, hacyclic, ht, ?_⟩
  rw [(supertype?_subst hm hacyclic ht ⟨22⟩ ⟨[(⟨10⟩, Language.stringTy)]⟩).1]
  decide

end Model

end TreeLowering
