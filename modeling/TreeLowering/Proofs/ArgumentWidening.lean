import TreeLowering.Proofs.PoolQuery
import TreeLowering.Proofs.RefinementSafety
import TreeLowering.Proofs.SameBounds
import TreeLowering.Proofs.TypePart
import Mathlib.Data.List.Nodup
set_option autoImplicit false

/-!
# Proofs: widening in arguments

The comparison of two types in their arguments pairs what both give for a
parameter and goes on inside each pair.  It is stated here by the places that it
sees: the two types stand apart at a place where two parameters differ in their
bounds, where the second type has no argument, or where the first one's argument
widens the second one's.  An argument is gone into when it is an instantiation
itself; one that admits the absent value is a union, and nothing in it is
compared.
-/

namespace TreeLowering

/-! ## Arguments of an instantiation -/

namespace Subst

variable {s : Subst} {p : ParamId} {u : Ty}

/-- Of several arguments for a parameter, the last one counts. -/
theorem get?_insertAll (s : Subst) (p : ParamId) (entries : List (ParamId × Ty)) :
    (s.insertAll entries).get? p = (entries.reverse.lookup p).or (s.get? p) := by
  unfold insertAll
  induction entries generalizing s with
  | nil => simp
  | cons e rest ih =>
    rw [List.foldl_cons, ih, List.reverse_cons, List.lookup_append, Option.or_assoc, get?_insert]
    congr 1
    rw [List.lookup_cons, List.lookup_nil]
    by_cases hp : p = e.1
    · simp [hp]
    · simp [hp, beq_eq_false_iff_ne.mpr hp]

/-- No parameter has two arguments. -/
def Distinct (s : Subst) : Prop := (s.entries.map Prod.fst).Nodup

theorem distinct_empty : empty.Distinct := List.nodup_nil

theorem Distinct.insert (h : s.Distinct) (p : ParamId) (t : Ty) : (s.insert p t).Distinct := by
  refine List.nodup_cons.mpr ⟨?_, h.sublist (List.filter_sublist.map _)⟩
  simp [Assoc.erase]

theorem Distinct.insertAll (h : s.Distinct) (entries : List (ParamId × Ty)) :
    (s.insertAll entries).Distinct := by
  unfold Subst.insertAll
  induction entries generalizing s with
  | nil => exact h
  | cons e rest ih => exact ih (h.insert e.1 e.2)

theorem mem_entries_iff (h : s.Distinct) : (p, u) ∈ s.entries ↔ s.get? p = some u := by
  rw [Subst.get?, List.lookup_eq_some_iff]
  constructor
  · intro hmem
    obtain ⟨before, after, heq⟩ := List.append_of_mem hmem
    refine ⟨before, after, heq, fun e he => ?_⟩
    rw [Distinct, heq, List.map_append, List.map_cons] at h
    have hfst := List.disjoint_of_nodup_append h (List.mem_map_of_mem he)
    exact bne_iff_ne.mpr fun hp => hfst (hp ▸ List.mem_cons_self)
  · rintro ⟨before, after, heq, -⟩
    simp [heq]

end Subst

theorem Ty.decl?_of_height {t : Ty} (h : t.height = 0) : t.decl? = none := by
  cases t with
  | nominal d as o hint => simp [height] at h
  | union _ | inter _ | param _ | bottom | error => rfl

namespace Model

variable {m : Model} {t r a b : Ty} {p : ParamId} {d : DeclId}

/-- The argument that a type has for a parameter: its own, or else that of a type
around it. -/
inductive ArgumentFor (m : Model) (p : ParamId) : Ty → Ty → Prop
  | own {d : DeclId} {as : List Ty} {o : Option Ty} {h : Option Hint} {a : Ty}
      (hlast : ((m.decl d).typeParams.zip as).reverse.lookup p = some a) :
      ArgumentFor m p (.nominal d as o h) a
  | around {d : DeclId} {as : List Ty} {q : Ty} {h : Option Hint} {a : Ty}
      (hnone : ((m.decl d).typeParams.zip as).reverse.lookup p = none)
      (hq : ArgumentFor m p q a) : ArgumentFor m p (.nominal d as (some q) h) a

theorem lookup_filter_key {κ α : Type} [BEq κ] [LawfulBEq κ] (keep : κ → Bool) {k : κ}
    (hk : keep k = true) (es : List (κ × α)) :
    (es.filter fun e => keep e.1).lookup k = es.lookup k := by
  induction es with
  | nil => rfl
  | cons e rest ih =>
    rw [List.lookup_cons]
    cases hkeep : keep e.1 with
    | true => rw [List.filter_cons, if_pos hkeep, List.lookup_cons, ih]
    | false =>
      have hne : k ≠ e.1 := fun heq => by simp [← heq, hk] at hkeep
      rw [List.filter_cons, if_neg (by simp [hkeep]), ih, beq_eq_false_iff_ne.mpr hne]

theorem get?_bindSegment (hp : (m.param p).sequenced = false) (d : DeclId) (as : List Ty)
    (o : Option Ty) (h : Option Hint) (s : Subst) :
    (m.bindSegment (.nominal d as o h) s).get? p =
      (((m.decl d).typeParams.zip as).reverse.lookup p).or (s.get? p) := by
  rw [bindSegment, Subst.get?_insertAll, ← List.filter_reverse,
    lookup_filter_key (fun q => !(m.param q).sequenced) (by simp [hp])]

/-- What a type gives for a parameter is its argument for it. -/
theorem get?_substitution_iff (hp : (m.param p).sequenced = false) {t : Ty} :
    (m.substitution t).get? p = some a ↔ m.ArgumentFor p t a := by
  cases t with
  | nominal d as o h =>
    rw [PooledModel.substitution_nominal, get?_bindSegment hp]
    cases hown : ((m.decl d).typeParams.zip as).reverse.lookup p with
    | some u =>
      rw [Option.some_or, Option.some_inj]
      constructor
      · rintro rfl
        exact .own hown
      · intro harg
        cases harg with
        | own hlast => exact Option.some_inj.mp (hown.symm.trans hlast)
        | around hnone _ => exact absurd (hown.symm.trans hnone) (by simp)
    | none =>
      rw [Option.none_or]
      cases o with
      | none =>
        refine ⟨fun hget => by simp [Subst.get?_empty] at hget, fun harg => ?_⟩
        cases harg with
        | own hlast => exact absurd (hown.symm.trans hlast) (by simp)
      | some q =>
        rw [Option.map_some, Option.getD_some, get?_substitution_iff hp]
        refine ⟨.around hown, fun harg => ?_⟩
        cases harg with
        | own hlast => exact absurd (hown.symm.trans hlast) (by simp)
        | around _ hq => exact hq
  | union _ | inter _ | param _ | bottom | error =>
    refine ⟨fun hget => ?_, fun harg => by cases harg⟩
    rw [PooledModel.substitution_eq_empty m rfl] at hget
    simp [Subst.get?_empty] at hget
termination_by sizeOf t

/-- A type gives nothing for a parameter that takes any number of arguments. -/
theorem not_sequenced_of_get? (h : (m.substitution t).get? p = some a) :
    (m.param p).sequenced = false := by
  have hbound : ¬ ∀ s ∈ t.segments, p ∉ m.boundParams s := by
    rw [← substitution_eq_none, h]
    simp
  simp only [not_forall, not_not] at hbound
  obtain ⟨s, -, hs⟩ := hbound
  cases s with
  | nominal d as o hint =>
    obtain ⟨e, he, rfl⟩ := List.mem_map.mp hs
    simpa using (List.mem_filter.mp he).2
  | union _ | inter _ | param _ | bottom | error => exact absurd hs List.not_mem_nil

theorem substitution_distinct (m : Model) (t : Ty) : (m.substitution t).Distinct := by
  unfold substitution
  induction t.segments with
  | nil => exact Subst.distinct_empty
  | cons s rest ih =>
    cases s with
    | nominal d as o hint => exact ih.insertAll _
    | union _ | inter _ | param _ | bottom | error => exact ih

theorem ArgumentFor.height_lt (h : m.ArgumentFor p t a) : a.height < t.height := by
  have hall : ∀ {ts : List Ty}, a ∈ ts → a.height ≤ Ty.heightAll ts := by
    intro ts hmem
    induction ts with
    | nil => exact absurd hmem List.not_mem_nil
    | cons u us ih =>
      rw [Ty.heightAll]
      rcases List.mem_cons.mp hmem with rfl | hmem
      · exact Nat.le_max_left _ _
      · exact (ih hmem).trans (Nat.le_max_right _ _)
  induction h with
  | own hlast =>
    obtain ⟨before, after, heq, -⟩ := List.lookup_eq_some_iff.mp hlast
    have hmem := List.mem_reverse.mp (heq ▸ List.mem_append_right before List.mem_cons_self)
    rw [Ty.height]
    have := hall (List.of_mem_zip hmem).2
    omega
  | around _ _ ih =>
    rw [Ty.height, Ty.heightOuter]
    have := ih hall
    omega

/-! ## Places in two types -/

/-- Both types have these arguments for one parameter. -/
def Faces (m : Model) (t r a b : Ty) : Prop :=
  ∃ p, (m.param p).sequenced = false ∧ m.ArgumentFor p t a ∧ m.ArgumentFor p r b

/-- The arguments that stand in one place of both types, at any depth.  Those on
the way are gone into without their absent case, and `P` holds of the first
type's. -/
inductive Position (m : Model) (P : Ty → Prop) : Ty → Ty → Ty → Ty → Prop
  | here {t r a b : Ty} (h : m.Faces t r a b) : Position m P t r a b
  | inside {t r u v a b : Ty} (h : m.Faces t r u v) (hu : P u)
      (hrest : Position m P u.definite v.definite a b) : Position m P t r a b

/-- The first type is less precise than the second one in some place. -/
inductive Apart (m : Model) : Ty → Ty → Prop
  | bounds {p q : ParamId} (h : m.haveSameBounds p q = false) : Apart m (.param p) (.param q)
  | lacking {t r a : Ty} {p : ParamId} (hp : (m.param p).sequenced = false)
      (ht : m.ArgumentFor p t a) (hr : ∀ b, ¬ m.ArgumentFor p r b) : Apart m t r
  | widening {t r a b : Ty} (h : m.Faces t r a b) (hwide : m.isWidening a b = true) : Apart m t r
  | inside {t r a b : Ty} (h : m.Faces t r a b) (hrest : Apart m a b) : Apart m t r

theorem ArgumentFor.decl?_isSome (h : m.ArgumentFor p t a) : t.decl?.isSome = true := by
  cases h <;> rfl

/-- Types that stand apart are two parameters, or the first one is an
instantiation. -/
theorem Apart.of_not_nominal (h : m.Apart t r) (ht : t.decl? = none) :
    ∃ p q, t = .param p ∧ r = .param q ∧ m.haveSameBounds p q = false := by
  have hnone : ∀ {p a}, ¬ m.ArgumentFor p t a := fun harg => by
    simpa [ht] using harg.decl?_isSome
  cases h with
  | bounds h => exact ⟨_, _, rfl, rfl, h⟩
  | lacking _ harg _ => exact absurd harg hnone
  | widening h _ | inside h _ =>
    obtain ⟨_, _, harg, _⟩ := h
    exact absurd harg hnone

/-! ## The comparison -/

/-- Two parameters are compared by their bounds. -/
theorem widensArgumentsWithin_param (fuel : Nat) (p q : ParamId) :
    m.widensArgumentsWithin fuel (.param p) (.param q) = !m.haveSameBounds p q := by
  cases fuel <;> simp only [widensArgumentsWithin]

/-- In any other pair, nothing is compared unless the first type is an
instantiation. -/
theorem widensArgumentsWithin_of_not_nominal (fuel : Nat) (ht : t.decl? = none)
    (hparam : ¬ (t.isParam = true ∧ r.isParam = true)) :
    m.widensArgumentsWithin fuel t r = false := by
  have hnot : ∀ p q, t = .param p → r = .param q → False := by
    rintro p q rfl rfl
    exact hparam ⟨rfl, rfl⟩
  cases fuel with
  | zero => rw [widensArgumentsWithin.eq_2 m t r hnot]
  | succ fuel =>
    rw [widensArgumentsWithin.eq_3 m t r fuel hnot, PooledModel.substitution_eq_empty m ht]
    rfl

/-- An instantiation is compared argument by argument. -/
theorem widensArgumentsWithin_succ_iff {fuel : Nat} (ht : t.decl?.isSome = true) :
    m.widensArgumentsWithin (fuel + 1) t r = true ↔
      ∃ p a, (m.param p).sequenced = false ∧ m.ArgumentFor p t a ∧
        ((∀ b, ¬ m.ArgumentFor p r b) ∨ ∃ b, m.ArgumentFor p r b ∧
          (m.isWidening a b = true ∨ m.widensArgumentsWithin fuel a b = true)) := by
  have hnot : ∀ p q, t = .param p → r = .param q → False := by
    rintro p q rfl rfl
    contradiction
  rw [widensArgumentsWithin.eq_3 m t r fuel hnot, List.any_eq_true]
  constructor
  · rintro ⟨⟨p, a⟩, hmem, hcase⟩
    have hget := (Subst.mem_entries_iff (m.substitution_distinct t)).mp hmem
    have hp := not_sequenced_of_get? hget
    refine ⟨p, a, hp, (get?_substitution_iff hp).mp hget, ?_⟩
    cases hother : (m.substitution r).get? p with
    | none =>
      refine .inl fun b hb => ?_
      rw [(get?_substitution_iff hp).mpr hb] at hother
      contradiction
    | some b =>
      simp only [hother, Bool.or_eq_true] at hcase
      exact .inr ⟨b, (get?_substitution_iff hp).mp hother, hcase⟩
  · rintro ⟨p, a, hp, hta, hcase⟩
    refine ⟨(p, a), (Subst.mem_entries_iff (m.substitution_distinct t)).mpr
      ((get?_substitution_iff hp).mpr hta), ?_⟩
    rcases hcase with hnone | ⟨b, hb, hcase⟩
    · cases hother : (m.substitution r).get? p with
      | none => rfl
      | some b => exact absurd ((get?_substitution_iff hp).mp hother) (hnone b)
    · simp only [(get?_substitution_iff hp).mpr hb, Bool.or_eq_true]
      exact hcase

theorem widensArgumentsWithin_iff_of_not_nominal {fuel : Nat} (ht : t.decl? = none) :
    m.widensArgumentsWithin fuel t r = true ↔ m.Apart t r := by
  constructor
  · intro h
    by_cases hparam : t.isParam = true ∧ r.isParam = true
    · cases t with
      | param p =>
        cases r with
        | param q => exact .bounds (by simpa [widensArgumentsWithin_param] using h)
        | nominal _ _ _ _ | union _ | inter _ | bottom | error => exact nomatch hparam.2
      | nominal _ _ _ _ | union _ | inter _ | bottom | error => exact nomatch hparam.1
    · rw [widensArgumentsWithin_of_not_nominal fuel ht hparam] at h
      contradiction
  · intro h
    obtain ⟨p, q, rfl, rfl, hbounds⟩ := h.of_not_nominal ht
    simp [widensArgumentsWithin_param, hbounds]

/-- As deep as the first type nests, the comparison sees every place. -/
theorem widensArgumentsWithin_iff {fuel : Nat} (hfuel : t.height ≤ fuel) :
    m.widensArgumentsWithin fuel t r = true ↔ m.Apart t r := by
  induction fuel generalizing t r with
  | zero => exact widensArgumentsWithin_iff_of_not_nominal (Ty.decl?_of_height (by omega))
  | succ fuel ih =>
    cases hdecl : t.decl? with
    | none => exact widensArgumentsWithin_iff_of_not_nominal hdecl
    | some d =>
      rw [widensArgumentsWithin_succ_iff (by rw [hdecl]; rfl)]
      have hdeeper : ∀ {p a b}, m.ArgumentFor p t a →
          (m.widensArgumentsWithin fuel a b = true ↔ m.Apart a b) :=
        fun ha => ih (Nat.le_of_lt_succ (Nat.lt_of_lt_of_le ha.height_lt hfuel))
      constructor
      · rintro ⟨p, a, hp, hta, hnone | ⟨b, hrb, hwide | hrest⟩⟩
        · exact .lacking hp hta hnone
        · exact .widening ⟨p, hp, hta, hrb⟩ hwide
        · exact .inside ⟨p, hp, hta, hrb⟩ ((hdeeper hta).mp hrest)
      · intro h
        cases h with
        | bounds _ => contradiction
        | lacking hp hta hnone => exact ⟨_, _, hp, hta, .inl hnone⟩
        | widening h hwide =>
          obtain ⟨p, hp, hta, hrb⟩ := h
          exact ⟨p, _, hp, hta, .inr ⟨_, hrb, .inl hwide⟩⟩
        | inside h hrest =>
          obtain ⟨p, hp, hta, hrb⟩ := h
          exact ⟨p, _, hp, hta, .inr ⟨_, hrb, .inr ((hdeeper hta).mpr hrest)⟩⟩

theorem widensArguments_iff : m.widensArguments t r = true ↔ m.Apart t r :=
  widensArgumentsWithin_iff (Nat.le_refl _)

/-! ## What the comparison sees -/

theorem ArgumentFor.unique (hp : (m.param p).sequenced = false) (ha : m.ArgumentFor p t a)
    (hb : m.ArgumentFor p t b) : a = b :=
  Option.some_inj.mp (((get?_substitution_iff hp).mpr ha).symm.trans
    ((get?_substitution_iff hp).mpr hb))

/-- No type stands apart from itself. -/
theorem not_apart_self (m : Model) (t : Ty) : ¬ m.Apart t t := by
  suffices h : ∀ u, m.Apart t u → u ≠ t from fun hself => h t hself rfl
  intro u hu
  induction hu with
  | bounds h =>
    rintro ⟨⟩
    rw [haveSameBounds_self] at h
    contradiction
  | lacking _ ht hr =>
    rintro rfl
    exact hr _ ht
  | widening h hwide =>
    rintro rfl
    obtain ⟨p, hp, ha, hb⟩ := h
    obtain rfl := ha.unique hp hb
    obtain ⟨-, herases, hprecise⟩ := isWidening_eq_true_iff.mp hwide
    rw [herases] at hprecise
    contradiction
  | inside h _ ih =>
    rintro rfl
    obtain ⟨p, hp, ha, hb⟩ := h
    exact ih (hb.unique hp ha)

/-- The type has no absent case to take away. -/
def Bare (t : Ty) : Prop := t.definite = t

/-- What an instantiation is without its absent case. -/
theorem definite_nominal (ht : t.decl? = some d) : Bare t ∨
    (d = Language.void ∧ t.definite = Language.objectTy) ∨
      (d = Language.nothing ∧ t.definite = .bottom) := by
  cases t with
  | nominal d' as o hint =>
    obtain rfl : d' = d := by simpa [Ty.decl?] using ht
    rw [Bare, Ty.definite]
    by_cases hvoid : d' = Language.void
    · exact .inr (.inl ⟨hvoid, if_pos hvoid⟩)
    · rw [if_neg hvoid]
      by_cases hnothing : d' = Language.nothing
      · exact .inr (.inr ⟨hnothing, if_pos hnothing⟩)
      · exact .inl (if_neg hnothing)
  | union _ | inter _ | param _ | bottom | error => contradiction

/-- An instantiation that has an argument without its absent case has none. -/
theorem bare_of_argument (ht : t.decl? = some d) (h : m.ArgumentFor p t.definite a) : Bare t := by
  rcases definite_nominal ht with hbare | ⟨-, hobject⟩ | ⟨-, hbottom⟩
  · exact hbare
  · rw [hobject] at h
    cases h with
    | own hlast => simp at hlast
  · rw [hbottom] at h
    cases h

theorem Position.faces {P : Ty → Prop} (h : m.Position P t r a b) : ∃ u v, m.Faces t r u v := by
  cases h with
  | here h => exact ⟨_, _, h⟩
  | inside h _ _ => exact ⟨_, _, h⟩

/-- A place is seen when each of the first type's arguments on the way is bare.
Where one of the second type's is not, the argument next to go into is lacking. -/
theorem Position.apart (h : m.Position Bare t r a b) (hwide : m.isWidening a b = true) :
    m.Apart t r := by
  induction h with
  | here h => exact .widening h hwide
  | @inside t r u v a b h hu hrest ih =>
    refine .inside h ?_
    have hapart := ih hwide
    rw [hu] at hapart hrest
    obtain ⟨_, _, p, hp, hpu, hpv⟩ := hrest.faces
    cases hv : v.decl? with
    | none => exact .lacking hp hpu fun b hb => by simpa [hv] using hb.decl?_isSome
    | some d => rwa [bare_of_argument hv hpv] at hapart

/-! ## Instantiations of one declaration -/

/-- An instantiation erases when it admits the absent value, or is one of a root
class with no arguments at all. -/
theorem erasesToObject_nominal_iff (ht : t.decl? = some d) :
    m.erasesToObject t = true ↔ (d = Language.nothing ∨ d = Language.void) ∨
      (t.outer? = none ∧ t.args = []) ∧ d ∈ rootDecls := by
  cases t with
  | nominal d' as o hint =>
    obtain rfl : d' = d := by simpa [Ty.decl?] using ht
    by_cases habsent : d' = Language.nothing ∨ d' = Language.void
    · refine iff_of_true ?_ (.inl habsent)
      rcases habsent with rfl | rfl <;> rfl
    · have hpresent : (Ty.nominal d' as o hint).isOptional = false := by
        simpa [Ty.isOptional] using habsent
      simp [erasesToObject, Ty.simplify, hpresent, Ty.collapse, habsent, Ty.outer?, Ty.args]
  | union _ | inter _ | param _ | bottom | error => contradiction

/-- Of two instantiations of one declaration of which the second has an argument,
the second one erases only if the first does. -/
theorem erases_of_argument (ht : t.decl? = some d) (hr : r.decl? = some d)
    (harg : m.ArgumentFor p r a) (h : m.erasesToObject r = true) : m.erasesToObject t = true := by
  rcases (erasesToObject_nominal_iff hr).mp h with habsent | ⟨⟨houter, hargs⟩, -⟩
  · exact (erasesToObject_nominal_iff ht).mpr (.inl habsent)
  · cases harg with
    | own hlast =>
      obtain rfl : _ = [] := hargs
      simp at hlast
    | around _ _ => contradiction

/-- The type of everything is below nothing else. -/
theorem supertype?_void {target : DeclId} (htarget : Language.void ≠ target)
    (hd : t.decl? = some Language.void) : m.supertype? t target = none := by
  cases t with
  | nominal d as o hint =>
    obtain rfl : d = Language.void := by simpa [Ty.decl?] using hd
    exact supertypeWithin_eq_none htarget (fun s hs => by contradiction) _
  | union _ | inter _ | param _ | bottom | error => contradiction

theorem not_both_params (ht : t.decl? = some d) (p q : ParamId) (htp : t = .param p) :
    r = .param q → False := by
  rw [htp] at ht
  contradiction

/-- Seeing the first type as an instantiation of its own declaration changes
nothing. -/
theorem widensInherited_eq (ht : t.decl? = some d) (hr : r.decl? = some d) (hbare : Bare r)
    (herases : m.erasesToObject r = true → m.erasesToObject t = true) :
    m.widensInherited t r = m.widensArguments t r := by
  have hdefinite : r.definite = r := hbare
  have hself : m.supertype? t d = some t := supertype?_self ht
  -- The climb has a name, so that checking the cases never follows it.
  obtain ⟨climb, hclimb⟩ : ∃ climb, m.supertype? t = climb := ⟨_, rfl⟩
  rw [hclimb] at hself
  rw [widensInherited.eq_2 m t r (not_both_params ht), if_neg (by simpa using herases), hclimb]
  split
  · rfl
  · simp only [hdefinite, hr, hself]

/-- A type that is no instantiation of the other's declaration is less precise. -/
theorem widensInherited_of_unseen (ht : t.decl? = some d) (hne : t ≠ r)
    (herases : m.erasesToObject r = true → m.erasesToObject t = true)
    (hunseen : ∀ target, r.definite.decl? = some target → m.supertype? t target = none) :
    m.widensInherited t r = true := by
  obtain ⟨climb, hclimb⟩ : ∃ climb, m.supertype? t = climb := ⟨_, rfl⟩
  rw [hclimb] at hunseen
  rw [widensInherited.eq_2 m t r (not_both_params ht), if_neg (by simpa using herases),
    if_neg hne, hclimb]
  cases htarget : r.definite.decl? with
  | none => rfl
  | some target => simp only [hunseen target htarget]

theorem widensInherited_self (m : Model) (t : Ty) :
    m.widensInherited t t = m.widensArguments t t := by
  cases t with
  | param p => rw [widensInherited, widensArguments, widensArgumentsWithin_param]
  | nominal _ _ _ _ | union _ | inter _ | bottom | error => simp [widensInherited]

theorem widensTypeArguments_iff_of_not_root (ht : t.decl? = some d) (hr : r.decl? = some d)
    (hd : d ∉ rootDecls) (allow : Bool) :
    m.widensTypeArguments t r allow = true ↔ m.Apart t r := by
  have hbare : Bare r := by
    rcases definite_nominal hr with hbare | ⟨rfl, -⟩ | ⟨rfl, -⟩
    · exact hbare
    · exact absurd (by decide) hd
    · exact absurd (by decide) hd
  have herases : m.erasesToObject r = true → m.erasesToObject t = true := fun h => by
    rcases (erasesToObject_nominal_iff hr).mp h with habsent | ⟨-, hroot⟩
    · exact (erasesToObject_nominal_iff ht).mpr (.inl habsent)
    · exact absurd hroot hd
  rw [← widensArguments_iff]
  cases allow with
  | false => rfl
  | true => rw [widensTypeArguments, if_pos rfl, widensInherited_eq ht hr hbare herases]

/-- A difference between two instantiations of one declaration is found however
they are compared, if the second one has an argument. -/
theorem widensTypeArguments_of_apart (ht : t.decl? = some d) (hr : r.decl? = some d)
    (harg : m.ArgumentFor p r a) (h : m.Apart t r) (allow : Bool) :
    m.widensTypeArguments t r allow = true := by
  have hwide : m.widensArguments t r = true := widensArguments_iff.mpr h
  have herases := erases_of_argument ht hr harg
  have hne : t ≠ r := fun heq => not_apart_self m r (heq ▸ h)
  cases allow with
  | false => exact hwide
  | true =>
    rw [widensTypeArguments, if_pos rfl]
    rcases definite_nominal hr with hbare | ⟨rfl, hobject⟩ | ⟨-, hbottom⟩
    · rw [widensInherited_eq ht hr hbare herases, hwide]
    · refine widensInherited_of_unseen ht hne herases fun target htarget => ?_
      rw [hobject] at htarget
      obtain rfl : Language.object = target := Option.some_inj.mp htarget
      exact supertype?_void (by decide) ht
    · refine widensInherited_of_unseen ht hne herases fun target htarget => ?_
      simp [hbottom, Ty.decl?] at htarget

theorem faces_iterable (a b : Ty) :
    Model.new.Faces (.of Language.iterable [a]) (.of Language.iterable [b]) a b :=
  ⟨Language.iterableElement, rfl, .own rfl, .own rfl⟩

/-- An `Iterable` whose argument is an optional `Iterable` of the element. -/
def optionalRows (element : Ty) : Ty :=
  .of Language.iterable [.optional (.of Language.iterable [element])]

/-- An `Iterable` whose argument is an `Iterable` of the element. -/
def rows (element : Ty) : Ty := .of Language.iterable [.of Language.iterable [element]]

/-- The comparison of the arguments of two types answers that one of the first
type is less precise exactly when the types stand apart in some place that is
reached through instantiations.  For two instantiations of one declaration, an
argument that widens the one in its place is found at any depth, however the
comparison is made, provided that every argument of the first type on the way is
bare.  A type that is none itself, such as an optional one, is not gone into.  No
type is less precise than itself. -/
theorem widensTypeArguments_iff_apart (m : Model) :
    (∀ t r, m.widensTypeArguments t r false = true ↔ m.Apart t r) ∧
    (∀ d t r, t.decl? = some d → r.decl? = some d →
      (∀ allow, (∃ a b, m.Position Bare t r a b ∧ m.isWidening a b = true) →
        m.widensTypeArguments t r allow = true) ∧
      (d ∉ rootDecls → ∀ allow, m.widensTypeArguments t r allow = true ↔ m.Apart t r)) ∧
    (∀ t r, t.decl? = none → t.isParam = false → m.widensTypeArguments t r false = false) ∧
    ∀ t allow, m.widensTypeArguments t t allow = false := by
  have hiff : ∀ t r, m.widensTypeArguments t r false = true ↔ m.Apart t r :=
    fun t r => widensArguments_iff
  refine ⟨hiff, fun d t r ht hr => ⟨fun allow => ?_, fun hd allow => ?_⟩,
    fun t r ht hparam => ?_, fun t allow => ?_⟩
  · rintro ⟨a, b, hposition, hwide⟩
    obtain ⟨_, _, p, -, -, hrv⟩ := hposition.faces
    exact widensTypeArguments_of_apart ht hr hrv (hposition.apart hwide) allow
  · exact widensTypeArguments_iff_of_not_root ht hr hd allow
  · exact widensArgumentsWithin_of_not_nominal _ ht (by simp [hparam])
  · have hself : m.widensArguments t t = false :=
      Bool.eq_false_iff.mpr fun h => not_apart_self m t (widensArguments_iff.mp h)
    cases allow with
    | false => exact hself
    | true => rw [widensTypeArguments, if_pos rfl, widensInherited_self, hself]

/-- An argument that widens one inside an optional argument is found: the second
type has no argument there. -/
theorem rows_widen :
    Model.new.Position Bare (rows Language.identifiableTy) (optionalRows Language.stringTy)
        Language.identifiableTy Language.stringTy ∧
      ∀ allow, Model.new.widensTypeArguments (rows Language.identifiableTy)
        (optionalRows Language.stringTy) allow = true := by
  have hposition : Model.new.Position Bare (rows Language.identifiableTy)
      (optionalRows Language.stringTy) Language.identifiableTy Language.stringTy :=
    .inside (faces_iterable _ _) rfl (.here (faces_iterable _ _))
  exact ⟨hposition, fun allow => ((widensTypeArguments_iff_apart Model.new).2.1 Language.iterable
    _ _ rfl rfl).1 allow ⟨_, _, hposition, by decide⟩⟩

/-- Inside arguments that are both optional, no argument is found to widen
another one. -/
theorem optionalRows_unseen :
    (optionalRows Language.identifiableTy).decl? = some Language.iterable ∧
      (optionalRows Language.stringTy).decl? = some Language.iterable ∧
      Model.new.Position (fun _ => True) (optionalRows Language.identifiableTy)
        (optionalRows Language.stringTy) Language.identifiableTy Language.stringTy ∧
      Model.new.isWidening Language.identifiableTy Language.stringTy = true ∧
      Model.new.widensTypeArguments (optionalRows Language.identifiableTy)
        (optionalRows Language.stringTy) false = false ∧
      Model.new.widensTypeArguments (optionalRows Language.identifiableTy)
        (optionalRows Language.stringTy) true = false :=
  ⟨rfl, rfl, .inside (faces_iterable _ _) trivial (.here (faces_iterable _ _)), by decide,
    by decide, by decide⟩

end Model

end TreeLowering
