import TreeLowering.Proofs.SegmentPlan
import TreeLowering.Proofs.TypePart
import Mathlib.Data.List.Forall2
set_option autoImplicit false

/-!
# Proofs: the instantiation found for a union

What is found for a union is joined from what is found for each case, one type
parameter of the target after the other.  Position by position the joined type
stands above what it was joined from, whatever the variance.  It keeps the
qualifying type of the first case only, and one argument for each type
parameter: it covers a case exactly when the case agrees in those.
-/

namespace TreeLowering

namespace Ty

variable {a : Ty} {ts : List Ty}

/-! ## Joins and meets cover what they are made of -/

/-- The argument of one case fits the argument that it was joined into, for a
parameter of the given variance. -/
def Fits (a : Ty) : Variance → Ty → Prop
  | .invariant, b => a = b
  | .covariant, b => a = bottom ∨ a = b ∨ ∃ us, b = union us ∧ a ∈ us
  | .contravariant, b => b = a ∨ ∃ us, b = inter us ∧ a ∈ us

theorem Fits.refl (a : Ty) (v : Variance) : a.Fits v a := by
  cases v with
  | invariant => exact rfl
  | covariant => exact .inr (.inl rfl)
  | contravariant => exact .inl rfl

theorem fits_join (h : a ∈ ts) : a.Fits .covariant (join ts) := by
  by_cases hbottom : a = bottom
  · exact .inl hbottom
  · have hkept : a ∈ distinct (ts.filter (· ≠ bottom)) :=
      mem_distinct.mpr (List.mem_filter.mpr ⟨h, by simpa using hbottom⟩)
    unfold join
    split
    · rename_i hnil
      rw [hnil] at hkept
      contradiction
    · rename_i t hsole
      rw [hsole, List.mem_singleton] at hkept
      exact .inr (.inl hkept)
    · exact .inr (.inr ⟨_, rfl, hkept⟩)

theorem fits_meet (h : a ∈ ts) : a.Fits .contravariant (meet ts) := by
  have hkept : a ∈ distinct ts := mem_distinct.mpr h
  unfold meet
  split
  · rename_i hnil
    rw [hnil] at hkept
    contradiction
  · rename_i t hsole
    rw [hsole, List.mem_singleton] at hkept
    exact .inl hkept.symm
  · exact .inr ⟨_, rfl, hkept⟩

/-! ## The first types of a climb -/

mutual

/-- The classes, interfaces and type parameters that a climb from the type
starts with: the type itself or, through unions and intersections, those of its
members. -/
def tops : Ty → List Ty
  | nominal d as o h => [nominal d as o h]
  | union ts => topsAll ts
  | inter ts => topsAll ts
  | param p => [param p]
  | bottom => []
  | error => []

/-- Those of each type of a list. -/
def topsAll : List Ty → List Ty
  | [] => []
  | t :: ts => tops t ++ topsAll ts

end

theorem mem_topsAll {u : Ty} : u ∈ topsAll ts ↔ ∃ t ∈ ts, u ∈ t.tops := by
  induction ts with
  | nil => simp [topsAll]
  | cons t ts ih => simp [topsAll, ih]

end Ty

namespace Model

variable {m : Model} {target : DeclId} {t tc : Ty}

/-! ## Joining column by column -/

theorem joinArgument_fits {p : ParamId} {column : List Ty} {a b : Ty}
    (h : m.joinArgument p column = some b) (ha : a ∈ column) : a.Fits (m.param p).variance b := by
  unfold joinArgument at h
  cases hvariance : (m.param p).variance with
  | covariant =>
    rw [hvariance] at h
    cases h
    exact Ty.fits_join ha
  | contravariant =>
    rw [hvariance] at h
    cases h
    exact Ty.fits_meet ha
  | invariant =>
    rw [hvariance] at h
    dsimp only at h
    split at h
    · contradiction
    · rename_i first rest
      split at h
      · rename_i hall
        cases h
        rcases List.mem_cons.mp ha with rfl | ha
        · exact .refl a _
        · have heq : a = b := by simpa using List.all_eq_true.mp hall a ha
          exact heq
      · contradiction

/-- The joined list has an argument for each parameter, which was joined from
the arguments in the same position. -/
theorem joinArguments_columns {ps : List ParamId} {rows : List (List Ty)} {joined : List Ty}
    (h : m.joinArguments ps rows = some joined) : joined.length = ps.length ∧
      ∀ (i : Nat) (p : ParamId), ps[i]? = some p → ∃ b, joined[i]? = some b ∧
        m.joinArgument p (rows.filterMap (·[i]?)) = some b := by
  induction ps generalizing rows joined with
  | nil =>
    cases h
    exact ⟨rfl, fun i p hp => by simp at hp⟩
  | cons q ps ih =>
    rw [joinArguments] at h
    split at h
    · contradiction
    · rename_i b hb
      split at h
      · contradiction
      · rename_i rest hrest
        cases h
        obtain ⟨hlength, hcolumns⟩ := ih hrest
        refine ⟨by rw [List.length_cons, List.length_cons, hlength], fun i p hp => ?_⟩
        cases i with
        | zero =>
          cases hp
          refine ⟨b, rfl, ?_⟩
          simpa only [List.head?_eq_getElem?] using hb
        | succ i =>
          obtain ⟨c, hc, hjoin⟩ := hcolumns i p hp
          refine ⟨c, hc, ?_⟩
          simpa only [List.filterMap_map, Function.comp_def, List.getElem?_tail] using hjoin

/-! ## Joining instantiations -/

/-- Several instantiations are joined into one with the qualifying type of the
first and an argument for each type parameter. -/
theorem joinInstances_cons {first second : Ty} {rest : List Ty}
    (h : m.joinInstances target (first :: second :: rest) = some t) :
    ∃ joined, t = .nominal target joined first.outer? none ∧
      m.joinArguments (m.decl target).typeParams ((first :: second :: rest).map Ty.args) =
        some joined := by
  cases first with
  | nominal d as o hint =>
    rw [joinInstances] at h
    · obtain ⟨joined, hjoined, rfl⟩ := Option.map_eq_some_iff.mp h
      exact ⟨joined, rfl, hjoined⟩
    · simp
  | union _ | inter _ | param _ | bottom | error => contradiction

/-! ## Climbing from each case -/

/-- The cases of a union that a climb starts from. -/
def climbed (cases : List Ty) : List Ty := cases.filter (· ≠ .bottom)

theorem climbEach_eq_some_iff {up : Ty → Option Ty} {cases found : List Ty} :
    m.climbEach up target cases = some found ↔
      List.Forall₂ (fun c u => m.climb up target c = some u) (climbed cases) found := by
  induction cases generalizing found with
  | nil => simp [climbEach, climbed, eq_comm]
  | cons c cases ih =>
    by_cases hbottom : c = .bottom
    · rw [climbEach, if_pos hbottom, climbed, List.filter_cons_of_neg (by simpa using hbottom)]
      exact ih
    · rw [climbEach, if_neg hbottom, climbed, List.filter_cons_of_pos (by simpa using hbottom),
        List.forall₂_cons_left_iff]
      constructor
      · intro h
        split at h
        · contradiction
        · rename_i u hu
          split at h
          · contradiction
          · rename_i rest hrest
            cases h
            exact ⟨u, rest, hu, ih.mp hrest, rfl⟩
      · rintro ⟨u, rest, hu, hrest, rfl⟩
        rw [hu, ih.mpr hrest]

/-- What is found for a union is joined from what is found for its cases. -/
theorem supertype?_union {cases : List Ty} :
    m.supertype? (.union cases) target = some t ↔ ∃ found,
      List.Forall₂ (fun c u => m.supertype? c target = some u) (climbed cases) found ∧
        m.joinInstances target found = some t := by
  obtain ⟨up, hup⟩ := m.exists_climb target
  simp only [hup]
  rw [climb, Option.bind_eq_some_iff]
  simp only [climbEach_eq_some_iff]

/-! ## Classes and interfaces with all their arguments -/

/-- A class or interface has one argument for each type parameter of its
declaration. -/
def Saturated (m : Model) (t : Ty) : Prop :=
  ∀ d ∈ t.decl?, t.args.length = (m.decl d).typeParams.length

/-- Every declared supertype is a class or interface with one argument for each
type parameter, and so is every class or interface that a bound leads to. -/
structure SaturatedUpwards (m : Model) : Prop where
  nominal : ∀ d, ∀ s ∈ (m.decl d).supertypes, s.decl?.isSome = true
  supertype : ∀ d, ∀ s ∈ (m.decl d).supertypes, m.Saturated s
  bound : ∀ p, ∀ b ∈ (m.param p).bounds, ∀ u ∈ b.tops, m.Saturated u

instance (m : Model) (t : Ty) : Decidable (m.Saturated t) :=
  inferInstanceAs (Decidable (∀ d ∈ t.decl?, _))

/-- A finite check of the declared supertypes and bounds. -/
theorem saturatedUpwards_of_range
    (hdecls : ∀ i ∈ List.range m.declCount, ∀ s ∈ (m.decl ⟨i⟩).supertypes,
      s.decl?.isSome = true ∧ m.Saturated s)
    (hparams : ∀ i ∈ List.range m.paramCount, ∀ b ∈ (m.param ⟨i⟩).bounds, ∀ u ∈ b.tops,
      m.Saturated u) : m.SaturatedUpwards := by
  exact ⟨fun d s hs => (hdecls d.index (index_of_supertype hs) s hs).1,
    fun d s hs => (hdecls d.index (index_of_supertype hs) s hs).2,
    fun p b hb => hparams p.index (index_of_bound hb) b hb⟩

theorem Saturated.subst {s : Ty} (hs : m.Saturated s) (hnominal : s.decl?.isSome = true)
    (σ : Subst) : ∀ u ∈ (s.subst σ).tops, m.Saturated u := by
  cases s with
  | nominal d as o hint =>
    intro u hu
    rw [Ty.subst, Ty.replace, Ty.tops, List.mem_singleton] at hu
    subst hu
    rintro _ ⟨⟩
    rw [Ty.args, Ty.replaceAll_eq_map, List.length_map]
    exact hs d rfl
  | union _ | inter _ | param _ | bottom | error => contradiction

/-- What is found from types with all their arguments has all of its own. -/
theorem SaturatedUpwards.climbs (hm : m.SaturatedUpwards) (target : DeclId) :
    m.Climbs target (fun t => ∀ u ∈ t.tops, m.Saturated u)
      (fun u => u.args.length = (m.decl target).typeParams.length) := by
  refine ⟨fun as o h ht => ?_, fun d as o h _ s hs => ?_, fun p _ => hm.bound p,
    fun ts hts t ht u hu => hts u (Ty.mem_topsAll.mpr ⟨t, ht, hu⟩),
    fun ts hts t ht u hu => hts u (Ty.mem_topsAll.mpr ⟨t, ht, hu⟩), fun found hfound t ht => ?_⟩
  · exact ht _ (List.mem_singleton_self _) target rfl
  · exact (hm.supertype d s hs).subst (hm.nominal d s hs) _
  · rcases found with _ | ⟨first, _ | ⟨second, rest⟩⟩
    · cases ht
      simp [bottomInstance, Ty.of, Ty.args]
    · cases ht
      exact hfound _ (List.mem_singleton_self _)
    · obtain ⟨joined, rfl, hjoined⟩ := joinInstances_cons ht
      exact (joinArguments_columns hjoined).1

/-! ## What is found for a union covers its cases -/

/-- The type parameter that the argument in a position is given for: the last
parameter has all further arguments where it takes any number of them. -/
def paramAt? (m : Model) (d : DeclId) (i : Nat) : Option ParamId :=
  ((m.decl d).typeParams[i]?).or
    ((m.decl d).typeParams.getLast?.filter fun p => (m.param p).sequenced)

/-- Wherever both instantiations have an argument, the first one's fits the
second one's. -/
def ArgumentsFit (m : Model) (target : DeclId) (tc t : Ty) : Prop :=
  ∀ i a b, tc.args[i]? = some a → t.args[i]? = some b →
    ∀ p ∈ m.paramAt? target i, a.Fits (m.param p).variance b

/-- The second instantiation stands above the first one: they have the same
qualifying type and as many arguments, which fit. -/
structure Covers (m : Model) (target : DeclId) (tc t : Ty) : Prop where
  outer : tc.outer? = t.outer?
  count : tc.args.length = t.args.length
  arguments : m.ArgumentsFit target tc t

theorem joinInstances_argumentsFit {found : List Ty} (h : m.joinInstances target found = some t)
    (htc : tc ∈ found) : m.ArgumentsFit target tc t := by
  intro i a b ha hb p hp
  rcases found with _ | ⟨first, _ | ⟨second, rest⟩⟩
  · contradiction
  · cases h
    obtain rfl := List.mem_singleton.mp htc
    cases hb.symm.trans ha
    exact .refl _ _
  · obtain ⟨joined, rfl, hjoined⟩ := joinInstances_cons h
    obtain ⟨hlength, hcolumns⟩ := joinArguments_columns hjoined
    have hi : i < (m.decl target).typeParams.length :=
      hlength ▸ (List.getElem?_eq_some_iff.mp hb).1
    rw [paramAt?, List.getElem?_eq_getElem hi] at hp
    obtain ⟨c, hc, hjoin⟩ := hcolumns i p (by simpa [List.getElem?_eq_getElem hi] using hp)
    rw [Ty.args, hc] at hb
    cases hb
    refine joinArgument_fits hjoin ?_
    rw [List.filterMap_map]
    exact List.mem_filterMap.mpr ⟨tc, htc, ha⟩

/-- What is found for a union has arguments that those found for each case fit.
With one case other than bottom it is what is found for that case; with several
it has one argument for each type parameter, and the qualifying type that was
found for the first of them.  So it covers a case exactly when the case agrees
in the qualifying type and the number of arguments, and agrees in the latter
wherever types have all their arguments. -/
theorem supertype?_union_covers {cases : List Ty} {c : Ty}
    (ht : m.supertype? (.union cases) target = some t) (hc : c ∈ cases) (hpresent : c ≠ .bottom) :
    ∃ tc, m.supertype? c target = some tc ∧
      m.ArgumentsFit target tc t ∧
      (m.Covers target tc t ↔ tc.outer? = t.outer? ∧ tc.args.length = t.args.length) ∧
      (climbed cases = [c] → t = tc) ∧
      (∀ first second rest, climbed cases = first :: second :: rest →
        t.args.length = (m.decl target).typeParams.length ∧
          ∃ u, m.supertype? first target = some u ∧ t.outer? = u.outer?) ∧
      (m.SaturatedUpwards → (∀ u ∈ (Ty.union cases).tops, m.Saturated u) →
        tc.args.length = t.args.length) := by
  obtain ⟨found, hfound, hjoin⟩ := supertype?_union.mp ht
  have hclimbed : c ∈ climbed cases := List.mem_filter.mpr ⟨hc, by simpa using hpresent⟩
  obtain ⟨tc, htc, hcase⟩ := exists_of_forall₂ hfound.flip hclimbed
  have hfit := joinInstances_argumentsFit hjoin htc
  refine ⟨tc, hcase, hfit, ⟨fun h => ⟨h.outer, h.count⟩, fun h => ⟨h.1, h.2, hfit⟩⟩,
    fun hsole => ?_, fun first second rest hseveral => ?_, fun hm hcases => ?_⟩
  · rw [hsole, List.forall₂_cons_left_iff] at hfound
    obtain ⟨u, us, hu, hrest, rfl⟩ := hfound
    cases hrest
    cases hjoin
    exact (List.mem_singleton.mp htc).symm
  · rw [hseveral] at hfound
    cases hfound with
    | cons hfirst hrest =>
      cases hrest with
      | cons hsecond hrest =>
        obtain ⟨joined, rfl, hjoined⟩ := joinInstances_cons hjoin
        exact ⟨(joinArguments_columns hjoined).1, _, hfirst, rfl⟩
  · have hcount : ∀ u v, (∀ w ∈ u.tops, m.Saturated w) → m.supertype? u target = some v →
        v.args.length = (m.decl target).typeParams.length := fun _ _ hu hv =>
      (hm.climbs target).supertype? hu hv
    rw [hcount _ _ hcases ht,
      hcount c tc (fun u hu => hcases u (Ty.mem_topsAll.mpr ⟨c, hc, hu⟩)) hcase]

/-- What is found for `Array<Integer>|Array<String>` covers `Array<String>`. -/
theorem arrayUnion_covered :
    Model.new.SaturatedUpwards ∧
      Model.new.supertype? (.union [.of Language.array [Language.integerTy],
        .of Language.array [Language.stringTy]]) Language.iterable =
          some (.of Language.iterable [.union [Language.integerTy, Language.stringTy]]) ∧
      ∃ tc, Model.new.supertype? (.of Language.array [Language.stringTy]) Language.iterable =
          some tc ∧
        Model.new.Covers Language.iterable tc
          (.of Language.iterable [.union [Language.integerTy, Language.stringTy]]) := by
  have hm : Model.new.SaturatedUpwards := saturatedUpwards_of_range (by decide) (by decide)
  have hfound : Model.new.supertype? (.union [.of Language.array [Language.integerTy],
      .of Language.array [Language.stringTy]]) Language.iterable =
        some (.of Language.iterable [.union [Language.integerTy, Language.stringTy]]) := by decide
  obtain ⟨tc, htc, -, hcovers, -, -, hcount⟩ := supertype?_union_covers hfound
    (c := .of Language.array [Language.stringTy]) (by decide) (by decide)
  have houter : tc.outer? = none := by
    have hinstance : Model.new.supertype? (.of Language.array [Language.stringTy])
        Language.iterable = some (.of Language.iterable [Language.stringTy]) := by decide
    cases htc.symm.trans hinstance
    rfl
  exact ⟨hm, hfound, tc, htc, hcovers.mpr ⟨houter, hcount hm (by decide)⟩⟩

/-- `class Outer<T>` with a class `Inner` inside. -/
def outerInner : Model where
  decls := #[
    { Declaration.bare "Outer" .cls "demo" none with
      typeParams := [⟨10⟩], extended := some Language.objectTy },
    { Declaration.bare "Inner" .cls "demo" (some ⟨22⟩) with
      extended := some Language.objectTy }]
  params := #[⟨"T", .invariant, [], ⟨22⟩, false⟩]

/-- `Outer<T>.Inner` -/
def innerOf (t : Ty) : Ty := .nominal ⟨23⟩ [] (some (.of ⟨22⟩ [t])) none

/-- What is found for `Outer<Integer>.Inner|Outer<String>.Inner` does not cover the
second case, and what is found for two callables with two parameters each covers
neither of them. -/
theorem qualified_and_sequenced_uncovered :
    (outerInner.supertype? (.union [innerOf Language.integerTy, innerOf Language.stringTy]) ⟨23⟩ =
        some (innerOf Language.integerTy) ∧
      outerInner.supertype? (innerOf Language.stringTy) ⟨23⟩ = some (innerOf Language.stringTy) ∧
      ¬ outerInner.Covers ⟨23⟩ (innerOf Language.stringTy) (innerOf Language.integerTy)) ∧
    ∃ joined, Model.new.supertype? (.union [
        .of Language.callable [Language.integerTy, Language.stringTy, Language.floatTy],
        .of Language.callable [Language.booleanTy, Language.stringTy, Language.floatTy]])
          Language.callable = some joined ∧
      ¬ Model.new.Covers Language.callable
        (.of Language.callable [Language.integerTy, Language.stringTy, Language.floatTy]) joined ∧
      ¬ Model.new.Covers Language.callable
        (.of Language.callable [Language.booleanTy, Language.stringTy, Language.floatTy])
        joined := by
  refine ⟨⟨by decide, by decide, fun h => absurd h.outer (by decide)⟩,
    .of Language.callable [.union [Language.integerTy, Language.booleanTy], Language.stringTy],
    by decide, fun h => absurd h.count (by decide), fun h => absurd h.count (by decide)⟩

end Model

end TreeLowering
