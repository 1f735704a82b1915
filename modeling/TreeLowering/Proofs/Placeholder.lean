import TreeLowering.Proofs.ProperType
set_option autoImplicit false

/-!
# Proofs: where the placeholder comes from

A lowered type holds the placeholder only where a missing argument is noted, or
where a type with no representation was met on the way: the erroneous type, a
qualifying type that is no class or interface, or a union that hides its
iterable shape.  Among proper types only the last is left: a union that is
optional twice does not erase, because it has an iterable shape without its
absent case, and is not written as that shape either, because it has none with
the absent case.
-/

namespace TreeLowering

namespace Target.Ty

mutual

/-- The placeholder stands somewhere in the type. -/
def hasPlaceholder : Ty → Bool
  | erroneous => true
  | member outer _ => hasPlaceholder outer
  | apply base args => hasPlaceholder base || anyPlaceholder args
  | subtypeOf bound => hasPlaceholder bound
  | supertypeOf bound => hasPlaceholder bound
  | array element => hasPlaceholder element
  | primitive _ | cls _ | anyType | var _ => false

/-- The placeholder stands in some type of a list. -/
def anyPlaceholder : List Ty → Bool
  | [] => false
  | t :: ts => hasPlaceholder t || anyPlaceholder ts

end

theorem anyPlaceholder_eq_false {ts : List Ty} :
    anyPlaceholder ts = false ↔ ∀ t ∈ ts, t.hasPlaceholder = false := by
  induction ts with
  | nil => simp [anyPlaceholder]
  | cons t ts ih => simp [anyPlaceholder, ih]

theorem hasPlaceholder_of_isPrimitive {t : Ty} (h : t.isPrimitive = true) :
    t.hasPlaceholder = false := by
  cases t with
  | primitive p => rfl
  | cls _ | member _ _ | apply _ _ | anyType | subtypeOf _ | supertypeOf _ | var _ | array _
  | erroneous => contradiction

end Target.Ty

namespace TypeLowering

variable {α β : Type}

/-! ## Accounting for placeholders -/

/-- A missing argument is among the notes. -/
def Reported (notes : List Note) : Prop := ∃ owner param, Note.missingArgument owner param ∈ notes

theorem Reported.append_left {notes more : List Note} (h : Reported notes) :
    Reported (notes ++ more) := by
  obtain ⟨owner, param, hmem⟩ := h
  exact ⟨owner, param, List.mem_append_left _ hmem⟩

theorem Reported.append_right {notes more : List Note} (h : Reported more) :
    Reported (notes ++ more) := by
  obtain ⟨owner, param, hmem⟩ := h
  exact ⟨owner, param, List.mem_append_right _ hmem⟩

/-- An answer of the computation satisfies `P`, unless a missing argument is
noted. -/
def Accounts (P : α → Prop) (x : TypeLowering α) : Prop :=
  ∀ a notes, x = some (a, notes) → P a ∨ Reported notes

/-- What is written, if anything is, is written without a placeholder, unless a
missing argument is noted. -/
def AccountsOption : TypeLowering (Option Target.Ty) → Prop :=
  Accounts fun t => ∀ u ∈ t, u.hasPlaceholder = false

/-- A type put together from types without a placeholder is without one, and a
missing argument is noted. -/
theorem withoutPlaceholder_formation :
    Formation Reported (fun t => t.hasPlaceholder = false) (fun t => t.hasPlaceholder = false) where
  append_left := .append_left
  append_right := .append_right
  cls _ := rfl
  member _ _ h := h
  apply base args _ hbase _ hargs := by
    simp [Target.Ty.hasPlaceholder, hbase, Target.Ty.anyPlaceholder_eq_false.mpr hargs]
  argument _ h := h
  anyType := rfl
  subtypeOf _ h := h
  supertypeOf _ h := h
  missing owner param := .inr ⟨owner, param, List.mem_singleton_self _⟩

end TypeLowering

/-! ## Types that cannot be written -/

namespace Model

variable {m : Model} {t : Ty}

/-- The simplification still has an absent case, and without that case an
iterable shape. -/
def HidesShape (m : Model) (t : Ty) : Prop :=
  t.simplify.hasAbsentCase = true ∧ (m.iterableShape? t.simplify).isSome = true

instance (m : Model) (t : Ty) : Decidable (m.HidesShape t) := inferInstanceAs (Decidable (_ ∧ _))

namespace HidesShape

theorem isComposite (h : m.HidesShape t) : t.simplify.isComposite = true := by
  have habsent := h.1
  cases hsimple : t.simplify with
  | union _ => rfl
  | nominal _ _ _ _ | inter _ | param _ | bottom | error =>
    rw [hsimple] at habsent
    contradiction

/-- A hidden shape keeps the type from erasing. -/
theorem not_erases (h : m.HidesShape t) : m.erasesToObject t = false := by
  rw [erasesToObject_of_isComposite h.isComposite, Option.isNone_eq_false_iff]
  exact h.2

/-- A hidden shape is not found. -/
theorem iterableShape?_eq_none (h : m.HidesShape t) : m.iterableShape? t = none := by
  rw [iterableShape?_eq_of_isComposite h.isComposite]
  exact nonemptyIterable?_of_hasAbsentCase h.1

end HidesShape

/-- A union or intersection that does not erase is written as its iterable shape
unless it hides it. -/
theorem hidesShape_of_iterableShape?_eq_none (hcomposite : t.simplify.isComposite = true)
    (herases : m.erasesToObject t = false) (h : m.iterableShape? t = none) : m.HidesShape t := by
  cases habsent : t.simplify.hasAbsentCase with
  | true =>
    rw [erasesToObject_of_isComposite hcomposite, Option.isNone_eq_false_iff] at herases
    exact ⟨habsent, herases⟩
  | false =>
    have hsome := isSome_iterableShape?_of_not_erases hcomposite habsent herases
    rw [h] at hsome
    contradiction

end Model

namespace TypeLowering

variable {m : Model} {t : Ty}

/-- Nothing but the placeholder, or a type around it, can be written for the
type. -/
def Unwritable (m : Model) (t : Ty) : Prop :=
  t.simplify = .error ∨ m.HidesShape t ∨
    ∃ shown, Shown m t shown ∧ ∃ s ∈ shown.simplify.segments.tail, s.decl? = none

theorem isClassType_of_nominal {d : DeclId} {as : List Ty} {o : Option Ty} {h : Option Hint}
    (htail : ∀ s ∈ (Ty.nominal d as o h).segments.tail, s.decl?.isSome = true) :
    IsClassType (.nominal d as o h) := by
  refine .inr fun s hs => ?_
  rw [Ty.segments] at hs htail
  rcases List.mem_cons.mp hs with rfl | hs
  · rfl
  · exact htail s hs

/-- What is shown of a type that can be written is a class type. -/
theorem isClassType_of_shown {shown : Ty} (hw : ¬ Unwritable m t)
    (herases : m.erasesToObject t = false) (hshown : Shown m t shown) :
    IsClassType shown.simplify := by
  have htail : ∀ s ∈ shown.simplify.segments.tail, s.decl?.isSome = true := fun s hs => by
    rw [← Option.ne_none_iff_isSome]
    exact fun hnone => hw (.inr (.inr ⟨shown, hshown, s, hs, hnone⟩))
  rcases hshown with ⟨rfl, hcomposite⟩ | ⟨hcomposite, _, hshape⟩
  · cases hsimple : shown.simplify with
    | nominal d as o h =>
      rw [hsimple] at htail
      exact isClassType_of_nominal htail
    | param p => exact .inl rfl
    | union _ | inter _ =>
      rw [hsimple] at hcomposite
      contradiction
    | bottom =>
      unfold Model.erasesToObject at herases
      rw [hsimple] at herases
      contradiction
    | error => exact absurd (.inl hsimple) hw
  · cases hfound : m.iterableShape? t with
    | none =>
      have hhides := Model.hidesShape_of_iterableShape?_eq_none hcomposite herases hfound
      exact absurd (.inr (.inl hhides)) hw
    | some shape =>
      rw [hfound] at hshape
      obtain rfl : shown = shape := hshape
      obtain ⟨as, o, h, rfl⟩ := Ty.isOf_iff.mp (Model.iterableShape?_isOf hfound)
      rw [simplify_nominal rfl] at htail ⊢
      exact isClassType_of_nominal htail

/-- What can be written is written without a placeholder. -/
theorem writes_of_not_unwritable (hw : ¬ Unwritable m t) :
    Writes (fun jt => jt.hasPlaceholder = false) m t where
  error ht := absurd (.inl (by rw [ht]; rfl)) hw
  shown herases _ hshown := ⟨fun _ _ => rfl, .inl (isClassType_of_shown hw herases hshown)⟩

end TypeLowering

/-! ## Whole types -/

namespace Env

open TypeLowering

variable {env : Env} {ctx : Context} {t u v : Ty}

theorem lowerType?_accounts (h : ∀ v, env.Reaches ctx t v → ¬ Unwritable env.model v) :
    AccountsOption (env.lowerType? t ctx) := by
  refine Ensures.mono (lowerType?_ensures withoutPlaceholder_formation fun v hv =>
    writes_of_not_unwritable (h v hv)) fun o ho jt hjt => ?_
  rcases ho jt hjt with hwritten | ⟨_, hprimitive⟩
  · exact hwritten
  · exact Target.Ty.hasPlaceholder_of_isPrimitive hprimitive

/-- Among proper types only a hidden shape cannot be written. -/
theorem unwritable_iff_of_proper (hm : env.model.Proper) (hv : v.Proper) :
    Unwritable env.model v ↔ env.model.HidesShape v := by
  constructor
  · rintro (herror | hhides | ⟨shown, hshown, s, hs, hnone⟩)
    · exact absurd herror hv.simplify.ne_error
    · exact hhides
    · have hproper : shown.simplify.Proper :=
        hm.carries.simplify (every_of_shown hm.carries hv hshown)
      have hself : shown.simplify.decl?.isSome = true := by
        cases hsimple : shown.simplify with
        | nominal _ _ _ _ => rfl
        | union _ | inter _ | param _ | bottom | error => simp [hsimple, Ty.segments] at hs
      have hsome := hproper.decl?_of_mem_segments hself (List.mem_of_mem_tail hs)
      rw [hnone] at hsome
      contradiction
  · exact fun h => .inr (.inl h)

theorem Reaches.proper (hm : env.model.Proper) (ht : t.Proper) (h : env.Reaches ctx t v) :
    v.Proper :=
  h.every hm.carries ht fun _ => hm.bound

/-- A type that hides its iterable shape is lowered to the placeholder, and
nothing is noted. -/
theorem lowerType?_of_hidesShape
    (h : env.model.HidesShape (resolveBound env.model ctx t.collapse)) :
    env.lowerType? t ctx = pure (some .erroneous) := by
  have herror : t.collapse ≠ .error := by
    intro herror
    rw [herror, resolveBound_error] at h
    exact absurd h.1 (by decide)
  have hcomposite := h.isComposite
  unfold lowerType?
  rw [← resolveBound_adjust env.config] at h hcomposite
  rw [step_of_not_erases herror h.not_erases]
  unfold writtenType
  rw [if_pos hcomposite, h.iterableShape?_eq_none, Option.getD_none, classType_of_no_class]
  · rfl
  · cases hsimple : (resolveBound env.model (adjust env.config ctx) t.collapse).simplify <;>
      simp_all [Ty.isComposite, Ty.decl?]
  · cases hsimple : (resolveBound env.model (adjust env.config ctx) t.collapse).simplify <;>
      simp_all [Ty.isComposite, Ty.isParam]

/-- A placeholder in a lowered type is accounted for by a missing argument that
is noted, or by a type that cannot be written and that the lowering comes to.
In a model of proper types, the only such type that a proper type leads to is a
union that hides its iterable shape, and that one is lowered to the placeholder
without a note. -/
theorem lowerType?_placeholder (env : Env) (ctx : Context) (t : Ty) :
    (∀ jt notes, env.lowerType? t ctx = some (some jt, notes) → jt.hasPlaceholder = true →
        Reported notes ∨ ∃ v, env.Reaches ctx t v ∧ Unwritable env.model v) ∧
      (env.model.Proper → t.Proper → ∀ v, env.Reaches ctx t v →
        (Unwritable env.model v ↔ env.model.HidesShape v)) ∧
      (env.model.HidesShape (resolveBound env.model ctx t.collapse) →
        env.lowerType? t ctx = pure (some .erroneous)) := by
  refine ⟨fun jt notes hlower hplaceholder => ?_, fun hm ht v hv =>
    unwritable_iff_of_proper hm (hv.proper hm ht), lowerType?_of_hidesShape⟩
  by_contra hnot
  rw [not_or, not_exists] at hnot
  have haccounts : AccountsOption (env.lowerType? t ctx) :=
    lowerType?_accounts fun v hv hw => hnot.2 v ⟨hv, hw⟩
  rcases haccounts _ _ hlower with hnone | hreported
  · rw [hnone jt rfl] at hplaceholder
    contradiction
  · exact hnot.1 hreported

/-- An entry without its second argument is lowered with a placeholder, which is
accounted for; what it comes to can be written unless it hides its shape; and a
twice optional iterable type hides its shape. -/
theorem incompleteEntry_accounted :
    (∃ jt notes, (Env.of .new .standard).lowerType? (.of Language.entry [Language.stringTy])
          .plain = some (some jt, notes) ∧ jt.hasPlaceholder = true ∧
        (Reported notes ∨ ∃ v, (Env.of .new .standard).Reaches .plain
          (.of Language.entry [Language.stringTy]) v ∧ Unwritable .new v)) ∧
      (Model.new.Proper ∧ (Ty.of Language.entry [Language.stringTy]).Proper ∧
        ∀ v, (Env.of .new .standard).Reaches .plain (.of Language.entry [Language.stringTy]) v →
          (Unwritable .new v ↔ Model.new.HidesShape v)) ∧
      Model.new.HidesShape (.optional (.optional (.of Language.iterable [Language.stringTy]))) ∧
        (Env.of .new .standard).lowerType?
            (.optional (.optional (.of Language.iterable [Language.stringTy]))) .plain =
          pure (some .erroneous) := by
  have hentry := lowerType?_placeholder (Env.of .new .standard) .plain
    (.of Language.entry [Language.stringTy])
  have hproper : Model.new.Proper ∧ (Ty.of Language.entry [Language.stringTy]).Proper := by decide
  have hhides : Model.new.HidesShape
      (.optional (.optional (.of Language.iterable [Language.stringTy]))) := by decide
  refine ⟨⟨_, _, rfl, by decide, hentry.1 _ _ rfl (by decide)⟩,
    ⟨hproper.1, hproper.2, hentry.2.1 hproper.1 hproper.2⟩, hhides,
    (lowerType?_placeholder (Env.of .new .standard) .plain _).2.2 hhides⟩

/-- A twice optional iterable type, which is proper, is lowered to the
placeholder, and nothing is noted. -/
theorem nestedOptional_silently_erroneous :
    Model.new.Proper ∧
      (Ty.optional (.optional (.of Language.iterable [Language.stringTy]))).Proper ∧
      ((Env.of .new .standard).lowerType?
          (.optional (.optional (.of Language.iterable [Language.stringTy]))) .plain).answer? =
        some (some .erroneous) ∧
      ((Env.of .new .standard).lowerType? (.optional (.optional (.of Language.iterable
          [Language.stringTy]))) .plain).notes = [] := by
  decide

end Env

end TreeLowering
