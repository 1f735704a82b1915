import TreeLowering.Proofs.TypePart
set_option autoImplicit false

/-!
# Proofs: proper types

A proper type has no erroneous type in it, and what is around a class or
interface is one as well.  Where the declared supertypes and bounds are proper,
so is every type that the lowering makes of a proper one.
-/

namespace TreeLowering

namespace Ty

/-- No erroneous type inside, and around each class or interface only others. -/
def Proper (t : Ty) : Prop :=
  ∀ c ∈ t.parts, c ≠ .error ∧ ∀ o ∈ c.outer?, o.decl?.isSome = true

instance (t : Ty) : Decidable t.Proper := inferInstanceAs (Decidable (∀ c ∈ t.parts, _))

/-- What a proper type asks of each of its parts. -/
def ProperPart (c : Ty) : Prop := c ≠ .error ∧ ∀ o ∈ c.outer?, o.decl?.isSome = true

theorem proper_iff_every {t : Ty} : t.Proper ↔ t.Every ProperPart := Iff.rfl

theorem partwise_properPart : Partwise ProperPart where
  union _ := ⟨by simp, by simp [outer?]⟩
  inter _ := ⟨by simp, by simp [outer?]⟩
  bottom := ⟨by simp, by simp [outer?]⟩
  object := ⟨by decide, by decide⟩
  boolean := ⟨by decide, by decide⟩
  hint _ _ _ _ h := ⟨by simp, h.2⟩

theorem Proper.ne_error {t : Ty} (h : t.Proper) : t ≠ .error := (Every.self h).1

theorem Proper.simplify {t : Ty} (h : t.Proper) : t.simplify.Proper :=
  partwise_properPart.simplify h

/-- All segments of a proper class or interface are classes and interfaces. -/
theorem Proper.decl?_of_mem_segments : ∀ {t s : Ty}, t.Proper → t.decl?.isSome = true →
    s ∈ t.segments → s.decl?.isSome = true
  | nominal d as none h, s, _, _, hs => by
    obtain rfl : s = nominal d as none h := by simpa [segments, segmentsAround] using hs
    rfl
  | nominal d as (some q) h, s, ht, _, hs => by
    rcases List.mem_cons.mp (by simpa [segments, segmentsAround] using hs) with rfl | hs
    · rfl
    · obtain ⟨hself, _, houter⟩ := every_nominal.mp (proper_iff_every.mp ht)
      exact Proper.decl?_of_mem_segments (houter q rfl) (hself.2 q rfl) hs
  | union _, _, _, h, _ | inter _, _, _, h, _ | param _, _, _, h, _ | bottom, _, _, h, _
  | error, _, _, h, _ => by contradiction

theorem ProperPart.replace (f : ParamId → Ty) {c : Ty} (h : ProperPart c)
    (hparam : c.isParam = false) : ProperPart (c.replace f) := by
  cases c with
  | nominal d as o hint =>
    rw [Ty.replace, replaceOuter_eq_map]
    refine ⟨by simp, fun q hq => ?_⟩
    obtain ⟨around, rfl, rfl⟩ := Option.map_eq_some_iff.mp hq
    cases around with
    | nominal _ _ _ _ => simp [Ty.replace, decl?]
    | union _ | inter _ | param _ | bottom | error => exact absurd (h.2 _ rfl) (by simp [decl?])
  | union _ | inter _ | bottom =>
    rw [Ty.replace]
    exact ⟨by simp, by simp [outer?]⟩
  | param _ => contradiction
  | error => exact absurd rfl h.1

end Ty

namespace Model

variable {m : Model}

/-- The declared supertypes and the bounds of all type parameters are proper. -/
structure Proper (m : Model) : Prop where
  supertype : ∀ d, ∀ t ∈ (m.decl d).supertypes, t.Proper
  bound : ∀ p, ∀ b ∈ (m.param p).bounds, b.Proper

theorem proper_iff :
    m.Proper ↔ (∀ i ∈ List.range m.declCount, ∀ t ∈ (m.decl ⟨i⟩).supertypes, t.Proper) ∧
      ∀ i ∈ List.range m.paramCount, ∀ b ∈ (m.param ⟨i⟩).bounds, b.Proper := by
  constructor
  · exact fun h => ⟨fun i _ => h.supertype ⟨i⟩, fun i _ => h.bound ⟨i⟩⟩
  · rintro ⟨hsupertype, hbound⟩
    exact ⟨fun d t ht => hsupertype d.index (index_of_supertype ht) t ht,
      fun p b hb => hbound p.index (index_of_bound hb) b hb⟩

instance (m : Model) : Decidable m.Proper := decidable_of_iff' _ proper_iff

/-- Declarations that are proper keep types proper. -/
theorem Proper.carries (hm : m.Proper) : m.Carries Ty.ProperPart where
  toPartwise := Ty.partwise_properPart
  iterable _ _ _ _ h _ := ⟨by simp, h.2⟩
  supertype d as o h ht s hs := by
    refine Ty.every_replace (fun p _ => ?_) fun b hb =>
      Ty.ProperPart.replace _ (hm.supertype d s hs b hb)
    cases hp : (m.substitution (.nominal d as o h)).get? p with
    | none => exact (Ty.every_leaf rfl).mpr ⟨by simp, by simp [Ty.outer?]⟩
    | some u =>
      obtain ⟨segment, hsegment, hu⟩ := mem_args_of_substitution hp
      exact (ht.segment hsegment).arg hu
  bound p _ := hm.bound p

end Model

end TreeLowering
