import TreeLowering.Proofs.LanguageModule
set_option autoImplicit false

/-!
# Proofs: what simplification leaves

Simplification takes one layer off a type: its absent case, and then a union or
intersection of one.  What is left may be optional again, as `T??` is.

A union with an absent case reaches no iterable type, while the iterable shape
of the same union is the one of its other cases.  So the shape of a type and
that of its simplification agree wherever the simplification has no absent case
left.
-/

namespace TreeLowering

namespace Ty

/-! ## Absent cases -/

/-- The type is a union with the absent value's own type among its cases. -/
def hasAbsentCase : Ty → Bool
  | union cases => cases.any (·.isOf Language.nothing)
  | _ => false

theorem isOf_iff {t : Ty} {d : DeclId} :
    t.isOf d = true ↔ ∃ as o h, t = nominal d as o h := by
  unfold isOf
  rw [beq_iff_eq]
  constructor
  · intro h
    cases t with
    | nominal d' as o hint =>
      cases h
      exact ⟨as, o, hint, rfl⟩
    | union _ | inter _ | param _ | bottom | error => contradiction
  · rintro ⟨as, o, hint, rfl⟩
    rfl

theorem isOptional_of_isOf_nothing {t : Ty} (h : t.isOf Language.nothing = true) :
    t.isOptional = true := by
  obtain ⟨as, o, hint, rfl⟩ := isOf_iff.mp h
  rfl

theorem presentCases_eq_self {cases : List Ty} (h : (union cases).hasAbsentCase = false) :
    presentCases cases = cases := by
  simp only [hasAbsentCase, List.any_eq_false] at h
  exact List.filter_eq_self.mpr fun t ht => by simpa using h t ht

theorem hasAbsentCase_of_not_optional {t : Ty} (h : t.isOptional = false) :
    t.hasAbsentCase = false := by
  cases t with
  | union cases =>
    rw [isOptional, anyOptional_eq_any, List.any_eq_false] at h
    exact List.any_eq_false.mpr fun t ht hnothing => h t ht (isOptional_of_isOf_nothing hnothing)
  | nominal _ _ _ _ | inter _ | param _ | bottom | error => rfl

/-! ## Simplification in two steps -/

/-- A type is its sole member or a union or intersection of it. -/
theorem eq_or_sole (t : Ty) : t = t.collapse ∨ t = union [t.collapse] ∨ t = inter [t.collapse] := by
  unfold collapse
  split
  · exact .inr (.inl rfl)
  · exact .inr (.inr rfl)
  · exact .inl rfl

/-- A type parameter in place of its intersection with the object type. -/
def bareParam (t : Ty) : Ty :=
  match t with
  | inter [param p, object] => if object = Language.objectTy then param p else t
  | _ => t

theorem simplify_of_optional {t : Ty} (h : t.isOptional = true) :
    t.simplify = t.definite.collapse.bareParam := by
  unfold simplify
  rw [if_pos h]
  rfl

theorem simplify_of_not_optional {t : Ty} (h : t.isOptional = false) :
    t.simplify = t.collapse.bareParam := by
  unfold simplify
  rw [if_neg (by simp [h])]
  rfl

/-- What becomes a type parameter is no union or intersection any more. -/
theorem bareParam_eq_self {t : Ty} (h : t.bareParam.isComposite = true) : t.bareParam = t := by
  unfold bareParam at h ⊢
  split
  · split
    · simp_all [isComposite]
    · rfl
  · rfl

end Ty

namespace Model

variable {m : Model} {t : Ty} {target : DeclId}

/-! ## Supertypes of unions and intersections -/

/-- Every climb from one model to one declaration goes on in the same way. -/
theorem exists_climb (m : Model) (target : DeclId) :
    ∃ up, ∀ t, m.supertype? t target = m.climb up target t := by
  unfold supertype?
  cases m.climbLimit with
  | zero => exact ⟨_, m.supertypeWithin_zero target⟩
  | succ fuel => exact ⟨_, m.supertypeWithin_succ target fuel⟩

theorem supertype?_bottom : m.supertype? .bottom target = some (m.bottomInstance target) := by
  obtain ⟨up, hup⟩ := m.exists_climb target
  rw [hup, climb]

theorem supertype?_collapse (m : Model) (t : Ty) (target : DeclId) :
    m.supertype? t.collapse target = m.supertype? t target := by
  obtain ⟨up, hup⟩ := m.exists_climb target
  unfold Ty.collapse
  split
  · rename_i only
    by_cases hbottom : only = .bottom
    · subst hbottom
      simp [hup, climb, climbEach, joinInstances]
    · cases hclimb : m.climb up target only <;>
        simp [hup, climb, climbEach, joinInstances, hbottom, hclimb]
  · rename_i only
    cases hclimb : m.climb up target only <;> simp [hup, climb, climbAny, hclimb]
  · rfl

theorem climbEach_eq_none {up : Ty → Option Ty} {cases : List Ty} {c : Ty} (hmem : c ∈ cases)
    (hbottom : c ≠ .bottom) (h : m.climb up target c = none) :
    m.climbEach up target cases = none := by
  induction cases with
  | nil => contradiction
  | cons first rest ih =>
    rw [climbEach]
    rcases List.mem_cons.mp hmem with rfl | hmem
    · rw [if_neg hbottom, h]
    · rw [ih hmem]
      split
      · rfl
      · cases m.climb up target first <;> rfl

/-- The absent value is of none but root classes. -/
theorem supertype?_of_hasAbsentCase (h : t.hasAbsentCase = true) (htarget : target ∉ rootDecls) :
    m.supertype? t target = none := by
  obtain ⟨up, hup⟩ := m.exists_climb target
  cases t with
  | union cases =>
    obtain ⟨c, hmem, hc⟩ := List.any_eq_true.mp h
    obtain ⟨as, o, hint, rfl⟩ := Ty.isOf_iff.mp hc
    have hnone : m.climb up target (.nominal Language.nothing as o hint) = none := by
      rw [← hup]
      exact supertypeWithin_root htarget (by decide) _
    rw [hup, climb, climbEach_eq_none hmem (by simp) hnone]
    rfl
  | nominal _ _ _ _ | inter _ | param _ | bottom | error => contradiction

/-! ## Iterable types above -/

/-- An answer about iterable types that depends on the climb alone. -/
theorem nonemptyIterable?_congr {u : Ty}
    (h : m.supertype? t Language.iterable = m.supertype? u Language.iterable) :
    m.nonemptyIterable? t = m.nonemptyIterable? u := by
  unfold nonemptyIterable?
  rw [h]

theorem nonemptyIterable?_eq_none (h : m.supertype? t Language.iterable = none) :
    m.nonemptyIterable? t = none := by
  unfold nonemptyIterable?
  rw [h, Option.filter_none]

theorem nonemptyIterable?_bottom : m.nonemptyIterable? .bottom = none := by
  unfold nonemptyIterable?
  rw [supertype?_bottom]
  rfl

theorem nonemptyIterable?_empty : m.nonemptyIterable? (.union []) = none := by
  obtain ⟨up, hup⟩ := m.exists_climb Language.iterable
  simp only [nonemptyIterable?, hup, climb, climbEach]
  rfl

theorem nonemptyIterable?_collapse (m : Model) (t : Ty) :
    m.nonemptyIterable? t.collapse = m.nonemptyIterable? t :=
  nonemptyIterable?_congr (m.supertype?_collapse t _)

theorem nonemptyIterable?_of_hasAbsentCase (h : t.hasAbsentCase = true) :
    m.nonemptyIterable? t = none :=
  nonemptyIterable?_eq_none (supertype?_of_hasAbsentCase h (by decide))

/-- No root class is iterable. -/
theorem nonemptyIterable?_root {d : DeclId} {as : List Ty} {o : Option Ty} {h : Option Hint}
    (hd : d ∈ rootDecls) : m.nonemptyIterable? (.nominal d as o h) = none :=
  nonemptyIterable?_eq_none (supertypeWithin_root (by decide) hd _)

theorem nonemptyIterable?_object : m.nonemptyIterable? Language.objectTy = none :=
  nonemptyIterable?_root (by decide)

/-- The object type adds nothing to what is iterable about a type. -/
theorem nonemptyIterable?_withObject (m : Model) (t : Ty) :
    m.nonemptyIterable? (.inter [t, Language.objectTy]) = m.nonemptyIterable? t := by
  obtain ⟨up, hup⟩ := m.exists_climb Language.iterable
  have hobject : m.climb up Language.iterable Language.objectTy = none := by
    rw [← hup]
    exact supertypeWithin_root (by decide) (by decide) _
  refine nonemptyIterable?_congr ?_
  rw [hup, hup, climb, climbAny, climbAny, hobject, climbAny]
  cases m.climb up Language.iterable t <;> rfl

theorem nonemptyIterable?_bareParam (m : Model) (t : Ty) :
    m.nonemptyIterable? t.bareParam = m.nonemptyIterable? t := by
  unfold Ty.bareParam
  split
  · split
    · rename_i hobject
      rw [hobject, nonemptyIterable?_withObject]
    · rfl
  · rfl

/-- A hint stands at most on the iterable type itself. -/
theorem isSome_nonemptyIterable?_withoutHint (m : Model) (t : Ty) :
    (m.nonemptyIterable? t.withoutHint).isSome = (m.nonemptyIterable? t).isSome := by
  cases t with
  | nominal d as o h =>
    obtain ⟨up, hup⟩ := m.exists_climb Language.iterable
    unfold nonemptyIterable?
    rw [hup, hup, Ty.withoutHint, climb, climb]
    by_cases hd : d = Language.iterable
    · rw [if_pos hd, if_pos hd, Option.isSome_filter, Option.isSome_filter]
      rfl
    · rw [if_neg hd, if_neg hd]
      rfl
  | union _ | inter _ | param _ | bottom | error => rfl

/-! ## Iterable shapes -/

/-- A type without an absent case has a shape when it reaches an iterable
type. -/
theorem isSome_iterableShape? (h : t.hasAbsentCase = false) :
    (m.iterableShape? t).isSome = (m.nonemptyIterable? t).isSome := by
  unfold iterableShape?
  cases t with
  | nominal d as o hint =>
    unfold Ty.definite
    dsimp only
    split
    · rename_i hd
      rw [hd, nonemptyIterable?_object, nonemptyIterable?_root (by decide)]
    · split
      · rename_i hd
        rw [hd, nonemptyIterable?_bottom, nonemptyIterable?_root (by decide)]
      · rfl
  | union cases =>
    simp only [Ty.definite, Ty.presentCases_eq_self h]
    match cases with
    | [] => rw [nonemptyIterable?_bottom, nonemptyIterable?_empty]
    | [only] =>
      have hsole : m.nonemptyIterable? (.union [only]) = m.nonemptyIterable? only :=
        (m.nonemptyIterable?_collapse (.union [only])).symm
      rw [hsole]
      dsimp only
      split
      · rename_i hvoid
        obtain ⟨as, o, hint, rfl⟩ := Ty.isOf_iff.mp hvoid
        rw [nonemptyIterable?_object, nonemptyIterable?_root (by decide)]
      · split
        · rw [nonemptyIterable?_withObject]
        · rw [isSome_nonemptyIterable?_withoutHint]
    | _ :: _ :: _ => rfl
  | inter _ | param _ | bottom | error => rfl

/-- A type has an iterable shape when its simplification reaches an iterable
type. -/
theorem isSome_iterableShape?_eq (m : Model) (t : Ty) :
    (m.iterableShape? t).isSome = (m.nonemptyIterable? t.simplify).isSome := by
  cases hoptional : t.isOptional with
  | true =>
    rw [Ty.simplify_of_optional hoptional, nonemptyIterable?_bareParam, nonemptyIterable?_collapse]
    rfl
  | false =>
    have hpresent := Ty.hasAbsentCase_of_not_optional hoptional
    rw [Ty.simplify_of_not_optional hoptional, nonemptyIterable?_bareParam,
      nonemptyIterable?_collapse, isSome_iterableShape? hpresent]

/-- A type that is not optional loses nothing but a hint, and a union or
intersection has none. -/
theorem nonemptyIterable?_definite_of_not_optional (hoptional : t.isOptional = false)
    (h : t.collapse.isComposite = true) :
    m.nonemptyIterable? t.definite = m.nonemptyIterable? t := by
  cases t with
  | union cases =>
    have hpresent := Ty.presentCases_eq_self (Ty.hasAbsentCase_of_not_optional hoptional)
    rcases cases with _ | ⟨only, _ | ⟨second, rest⟩⟩
    · simp only [Ty.definite, hpresent]
      rw [nonemptyIterable?_bottom, nonemptyIterable?_empty]
    · cases only with
      | union _ | inter _ =>
        simp only [Ty.definite, hpresent]
        exact m.nonemptyIterable?_collapse (.union [_])
      | nominal _ _ _ _ | param _ | bottom | error => contradiction
    · simp only [Ty.definite, hpresent]
  | inter _ => rfl
  | nominal _ _ _ _ | param _ | bottom | error => contradiction

/-- What is written for a union or an intersection is looked for above its
simplification. -/
theorem iterableShape?_eq_of_isComposite (h : t.simplify.isComposite = true) :
    m.iterableShape? t = m.nonemptyIterable? t.simplify := by
  unfold iterableShape?
  cases hoptional : t.isOptional with
  | true =>
    rw [Ty.simplify_of_optional hoptional, nonemptyIterable?_bareParam, nonemptyIterable?_collapse]
  | false =>
    rw [Ty.simplify_of_not_optional hoptional] at h ⊢
    have hbare := Ty.bareParam_eq_self h
    rw [hbare] at h ⊢
    rw [nonemptyIterable?_collapse, nonemptyIterable?_definite_of_not_optional hoptional h]

/-! ## What erases -/

/-- Erasure looks at the simplification alone. -/
theorem erasesToObject_congr {u : Ty} (h : t.simplify = u.simplify) :
    m.erasesToObject t = m.erasesToObject u := by
  unfold erasesToObject
  rw [h]

theorem erasesToObject_of_isComposite (h : t.simplify.isComposite = true) :
    m.erasesToObject t = (m.iterableShape? t.simplify).isNone := by
  unfold erasesToObject
  split <;> simp_all [Ty.isComposite]

/-- What erases has no iterable shape. -/
theorem iterableShape?_of_erases (h : m.erasesToObject t = true) : m.iterableShape? t = none := by
  have hcomposite : t.simplify.isComposite = true → m.nonemptyIterable? t.simplify = none := by
    intro hcomposite
    rw [erasesToObject_of_isComposite hcomposite, Option.isNone_iff_eq_none] at h
    cases hpresent : t.simplify.hasAbsentCase with
    | true => exact nonemptyIterable?_of_hasAbsentCase hpresent
    | false =>
      rw [← Option.not_isSome_iff_eq_none, ← isSome_iterableShape? hpresent, h]
      simp
  have hnone : m.nonemptyIterable? t.simplify = none := by
    unfold erasesToObject at h
    split at h
    · rename_i hsimple
      rw [hsimple]
      exact nonemptyIterable?_root (by simp_all)
    · rename_i hsimple
      rw [hsimple, nonemptyIterable?_bottom]
    · rename_i hsimple
      exact hcomposite (by rw [hsimple]; rfl)
    · rename_i hsimple
      exact hcomposite (by rw [hsimple]; rfl)
    · contradiction
    · contradiction
  rw [← Option.not_isSome_iff_eq_none, isSome_iterableShape?_eq, hnone]
  simp

/-- A union or intersection that does not erase has an iterable shape, where its
simplification has no absent case left. -/
theorem isSome_iterableShape?_of_not_erases (hcomposite : t.simplify.isComposite = true)
    (hpresent : t.simplify.hasAbsentCase = false) (h : m.erasesToObject t = false) :
    (m.iterableShape? t).isSome = true := by
  rw [erasesToObject_of_isComposite hcomposite, Option.isNone_eq_false_iff] at h
  rw [isSome_iterableShape?_eq, ← isSome_iterableShape? hpresent]
  exact h

end Model

/-! ## Types that one layer simplifies -/

namespace Ty

/-- The type is the absent value's own type or the type of everything. -/
def isVoidOrNothing (t : Ty) : Bool := t.isOf Language.void || t.isOf Language.nothing

/-- One layer of simplification is all there is to take off: the type is no
union or intersection of one and has no absent case. -/
structure Settled (t : Ty) : Prop where
  sole : t.collapse = t
  present : t.hasAbsentCase = false
  /-- The types that hold the absent value take no arguments. -/
  plain : t.isVoidOrNothing = true → t.args = [] ∧ t.outer? = none

instance (t : Ty) : Decidable t.Settled :=
  decidable_of_iff (t.collapse = t ∧ t.hasAbsentCase = false ∧
      (t.isVoidOrNothing = true → t.args = [] ∧ t.outer? = none))
    ⟨fun h => ⟨h.1, h.2.1, h.2.2⟩, fun h => ⟨h.sole, h.present, h.plain⟩⟩

variable {t u : Ty}

theorem isVoidOrNothing_eq_false (h : t.isVoidOrNothing = false) :
    t.isOf Language.void = false ∧ t.isOf Language.nothing = false := by
  simpa [isVoidOrNothing] using h

/-- The sole case that is not absent, simplified. -/
theorem simplify_of_sole {cases : List Ty} (hoptional : (union cases).isOptional = true)
    (hpresent : presentCases cases = [u]) (h : u.isVoidOrNothing = false) :
    (union cases).simplify = u.withoutHint.collapse.bareParam := by
  rw [simplify_of_optional hoptional]
  simp only [definite, hpresent, (isVoidOrNothing_eq_false h).1, Bool.false_eq_true, if_false]
  cases u with
  | param p => rfl
  | nominal _ _ _ _ | union _ | inter _ | bottom | error => rfl

theorem simplify_optional (h : t.isVoidOrNothing = false) :
    t.optional.simplify = t.withoutHint.collapse.bareParam := by
  refine simplify_of_sole rfl ?_ h
  simp only [presentCases, List.filter_cons, (isVoidOrNothing_eq_false h).2]
  rfl

/-- An optional type that is no class is a union. -/
theorem withoutHint_of_optional (hoptional : t.isOptional = true)
    (h : t.isVoidOrNothing = false) : t.withoutHint = t := by
  cases t with
  | nominal d as o hint =>
    simp_all [isOptional, isVoidOrNothing, isOf, decl?]
  | union _ | inter _ | param _ | bottom | error => rfl

namespace Settled

theorem eq_of_isVoidOrNothing (ht : t.Settled) (h : t.isVoidOrNothing = true) :
    ∃ d hint, (d = Language.void ∨ d = Language.nothing) ∧ t = nominal d [] none hint := by
  have hplain := ht.plain h
  simp only [isVoidOrNothing, Bool.or_eq_true] at h
  rcases h with h | h <;> obtain ⟨as, o, hint, rfl⟩ := isOf_iff.mp h <;>
    obtain ⟨rfl, rfl⟩ : as = [] ∧ o = none := hplain
  · exact ⟨_, hint, .inl rfl, rfl⟩
  · exact ⟨_, hint, .inr rfl, rfl⟩

theorem simplify (ht : t.Settled) (h : t.isVoidOrNothing = false) : t.simplify = t.bareParam := by
  cases hoptional : t.isOptional with
  | false => rw [simplify_of_not_optional hoptional, ht.sole]
  | true =>
    rw [simplify_of_optional hoptional]
    cases t with
    | union cases =>
      simp only [definite, presentCases_eq_self ht.present]
      match cases, ht.sole with
      | [only], hsole =>
        have hsize := congrArg sizeOf hsole
        simp [collapse] at hsize
        omega
      | _ :: _ :: _, _ => rfl
    | nominal _ _ _ _ => simp_all [isOptional, isVoidOrNothing, isOf, decl?]
    | inter _ | param _ | bottom | error => contradiction

/-- The union of one settled case is simplified to what that case is. -/
theorem simplify_union (ht : t.Settled) (h : t.isVoidOrNothing = false) :
    (union [t]).simplify = t.bareParam := by
  cases hoptional : (union [t]).isOptional with
  | false => rw [simplify_of_not_optional hoptional]; rfl
  | true =>
    have ht' : t.isOptional = true := by simpa [isOptional, anyOptional] using hoptional
    have hpresent : presentCases [t] = [t] := by
      simp [presentCases, (isVoidOrNothing_eq_false h).2]
    rw [simplify_of_sole hoptional hpresent h, withoutHint_of_optional ht' h, ht.sole]

end Settled

end Ty

end TreeLowering
