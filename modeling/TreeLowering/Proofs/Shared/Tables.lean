import Mathlib.Data.List.Forall2
import TreeLowering.Proofs.InternerRun
import TreeLowering.Proofs.PoolReading
import TreeLowering.Proofs.SubstitutionAction
import TreeLowering.Shared.Tables
set_option autoImplicit false

/-!
# Proofs: what is in shared tables

A position stands for the type that it reads back as, and a name for its text.
Tables that grow keep both, so what a computation over the tables tells is stated
for all tables that the given ones grow to, and it is put together by one rule for
each way of putting the computation together.
-/

namespace TreeLowering.Shared

open TreeLowering.TypePool (Grows)

namespace Tables

variable {t u v : Tables} {i j : TypeIdx} {n : Name} {τ σ : Ty} {x y : String}

/-- Every position keeps its node and every name its text. -/
structure Within (t u : Tables) : Prop where
  pool : Grows t.pool u.pool
  names : t.names.Within u.names

/-- The pool has each type at one position, and the interner each text under one of
the names that there are. -/
structure Sound (t : Tables) : Prop where
  pool : t.pool.Sound
  names : t.names.Sound
  few : t.names.size ≤ Name.count

/-- There are more types than positions, or as many texts as names. -/
def Full (t : Tables) : Prop := TypeIdx.count < t.pool.size ∨ Name.count ≤ t.names.size

/-- The two are the same. -/
def Same {α : Type} (_ : Tables) (a b : α) : Prop := a = b

/-- Both are missing, or they are related. -/
def Maybe {α β : Type} (S : Tables → α → β → Prop) (t : Tables) : Option α → Option β → Prop :=
  Option.Rel (S t)

/-- They are related one by one. -/
def Each {α β : Type} (S : Tables → α → β → Prop) (t : Tables) : List α → List β → Prop :=
  List.Forall₂ (S t)

/-- What is related stays so when the tables grow. -/
class Stays {α β : Type} (S : Tables → α → β → Prop) : Prop where
  mono {t u : Tables} {a : α} {b : β} : S t a b → t.Within u → S u a b

/-- The position holds the type. -/
def HasTy (t : Tables) (i : TypeIdx) (τ : Ty) : Prop := t.pool.Reads i τ

/-- The name is that of the text. -/
def HasName (t : Tables) (n : Name) (x : String) : Prop := t.names.Stores n x

/-- The node stands for the type, and each of its positions for a part of it. -/
inductive Holds (t : Tables) : TypeNode → Ty → Prop where
  | nominal {d : DeclId} {as : List TypeIdx} {As : List Ty} {o : Option TypeIdx} {O : Option Ty}
      {h : Option Hint} (args : Each HasTy t as As) (outer : Maybe HasTy t o O) :
      Holds t (.nominal d as o h) (.nominal d As O h)
  | union {cases : List TypeIdx} {Cases : List Ty} (parts : Each HasTy t cases Cases) :
      Holds t (.union cases) (.union Cases)
  | inter {bounds : List TypeIdx} {Bounds : List Ty} (parts : Each HasTy t bounds Bounds) :
      Holds t (.inter bounds) (.inter Bounds)
  | param {p : ParamId} : Holds t (.param p) (.param p)
  | bottom : Holds t .bottom .bottom
  | error : Holds t .error .error

/-! ## Growing -/

namespace Within

theorem refl (t : Tables) : t.Within t := ⟨.refl, .refl _⟩

theorem trans (h : t.Within u) (h' : u.Within v) : t.Within v :=
  ⟨h.pool.trans h'.pool, h.names.trans h'.names⟩

end Within

theorem HasTy.mono (hi : t.HasTy i τ) (h : t.Within u) : u.HasTy i τ := hi.grows h.pool

theorem HasName.mono (hn : t.HasName n x) (h : t.Within u) : u.HasName n x := h.names n x hn

instance {α : Type} : Stays (Same (α := α)) := ⟨fun h _ => h⟩

instance : Stays HasTy := ⟨HasTy.mono⟩

instance : Stays HasName := ⟨HasName.mono⟩

instance {α β : Type} {S : Tables → α → β → Prop} [Stays S] : Stays (Maybe S) where
  mono h hu := by
    cases h with
    | some hab => exact .some (Stays.mono hab hu)
    | none => exact .none

instance {α β : Type} {S : Tables → α → β → Prop} [Stays S] : Stays (Each S) where
  mono h hu := h.imp fun _ _ hab => Stays.mono hab hu

instance {α β : Type} {S : Tables → α → β → Prop} {P : α → β → Prop} [Stays S] :
    Stays (fun t a b => S t a b ∧ P a b) :=
  ⟨fun h hu => ⟨Stays.mono h.1 hu, h.2⟩⟩

/-! ## Lists of positions -/

theorem Each.map_eq {α β γ : Type} {S : Tables → α → β → Prop} {as : List α} {bs : List β}
    {f : α → γ} {g : β → γ} (has : Each S t as bs) (h : ∀ a ∈ as, ∀ b, S t a b → f a = g b) :
    as.map f = bs.map g := by
  induction has with
  | nil => rfl
  | cons hab _ ih =>
    rw [List.map_cons, List.map_cons, h _ List.mem_cons_self _ hab,
      ih fun a ha => h a (List.mem_cons_of_mem _ ha)]

theorem Each.any_eq {α β : Type} {S : Tables → α → β → Prop} {as : List α} {bs : List β}
    {f : α → Bool} {g : β → Bool} (has : Each S t as bs)
    (h : ∀ a ∈ as, ∀ b, S t a b → f a = g b) : as.any f = bs.any g := by
  induction has with
  | nil => rfl
  | cons hab _ ih =>
    rw [List.any_cons, List.any_cons, h _ List.mem_cons_self _ hab,
      ih fun a ha => h a (List.mem_cons_of_mem _ ha)]

theorem Each.with_mem {α β : Type} {S : Tables → α → β → Prop} {P : α → β → Prop} {as : List α}
    {bs : List β} (has : Each S t as bs) (h : ∀ a ∈ as, ∀ b ∈ bs, P a b) :
    Each (fun t a b => S t a b ∧ P a b) t as bs := by
  induction has with
  | nil => exact .nil
  | cons hab _ ih =>
    refine .cons ⟨hab, h _ List.mem_cons_self _ List.mem_cons_self⟩ (ih fun a ha b hb => ?_)
    exact h a (List.mem_cons_of_mem _ ha) b (List.mem_cons_of_mem _ hb)

theorem Each.getElem? {α β : Type} {S : Tables → α → β → Prop} {as : List α} {bs : List β}
    (has : Each S t as bs) (k : Nat) : Maybe S t as[k]? bs[k]? := by
  induction has generalizing k with
  | nil => exact .none
  | cons hab _ ih =>
    cases k with
    | zero => exact .some hab
    | succ k => exact ih k

theorem Each.replicate {α β : Type} {S : Tables → α → β → Prop} {a : α} {b : β} (h : S t a b)
    (k : Nat) : Each S t (List.replicate k a) (List.replicate k b) := by
  induction k with
  | zero => exact .nil
  | succ k ih => exact .cons h ih

theorem hasTys_iff {is : List TypeIdx} {τs : List Ty} :
    Each HasTy t is τs ↔ t.pool.ReadsAll is τs := by
  induction is generalizing τs with
  | nil =>
    constructor
    · rintro ⟨⟩
      exact ⟨by simp, rfl⟩
    · rintro ⟨-, rfl⟩
      exact .nil
  | cons i is ih =>
    constructor
    · rintro (_ | ⟨hi, his⟩)
      obtain ⟨hhas, hread⟩ := ih.mp his
      exact ⟨List.forall_mem_cons.mpr ⟨hi.1, hhas⟩, by rw [List.map_cons, hi.2, hread]⟩
    · rintro ⟨hhas, rfl⟩
      obtain ⟨hi, his⟩ := List.forall_mem_cons.mp hhas
      exact .cons ⟨hi, rfl⟩ (ih.mpr ⟨his, rfl⟩)

theorem hasTy?_map {o : Option TypeIdx} (h : ∀ i ∈ o, t.pool.Has i) :
    Maybe HasTy t o (o.map t.pool.ty) := by
  cases o with
  | none => exact .none
  | some i => exact .some ⟨h i rfl, rfl⟩

/-! ## Nodes -/

/-- A node stands for what it reads as. -/
theorem Holds.of_has {n : TypeNode} (h : ∀ i ∈ n.parts, t.pool.Has i) :
    t.Holds n (n.read t.pool.ty) := by
  cases n with
  | nominal d as o hint =>
    refine .nominal (hasTys_iff.mpr ⟨fun i hi => h i (List.mem_append_right _ hi), rfl⟩)
      (hasTy?_map fun i hi => h i (List.mem_append_left _ (Option.mem_toList.mpr hi)))
  | union cases => exact .union (hasTys_iff.mpr ⟨h, rfl⟩)
  | inter bounds => exact .inter (hasTys_iff.mpr ⟨h, rfl⟩)
  | param p => exact .param
  | bottom => exact .bottom
  | error => exact .error

/-- A node that stands for a type reads as it, and its parts are in the pool. -/
theorem Holds.reads {n : TypeNode} (h : t.Holds n τ) :
    (∀ i ∈ n.parts, t.pool.Has i) ∧ n.read t.pool.ty = τ := by
  cases h with
  | nominal has ho =>
    obtain ⟨hargs, hread⟩ := hasTys_iff.mp has
    cases ho with
    | none => exact ⟨hargs, by rw [TypeNode.read, hread]; rfl⟩
    | some hi =>
      refine ⟨List.forall_mem_cons.mpr ⟨hi.1, hargs⟩, ?_⟩
      rw [TypeNode.read, hread, Option.map_some, hi.2]
  | union hparts =>
    obtain ⟨hhas, hread⟩ := hasTys_iff.mp hparts
    exact ⟨hhas, congrArg Ty.union hread⟩
  | inter hparts =>
    obtain ⟨hhas, hread⟩ := hasTys_iff.mp hparts
    exact ⟨hhas, congrArg Ty.inter hread⟩
  | param | bottom | error => exact ⟨by simp [TypeNode.parts], rfl⟩

/-- What a position holds, its node stands for. -/
theorem HasTy.holds (hi : t.HasTy i τ) (h : t.Sound) : t.Holds (t.pool.node i) τ := by
  obtain ⟨hhas, rfl⟩ := hi
  rw [h.pool.closed.ty_eq hhas]
  exact .of_has fun j hj => h.pool.closed.has hhas hj

/-- The parts of a type are at smaller positions. -/
theorem HasTy.lt_of_mem (hi : t.HasTy i τ) (h : t.Sound) (hj : j ∈ (t.pool.node i).parts) :
    j.index < i.index :=
  h.pool.closed i hi.1 j hj

theorem Holds.mono {n : TypeNode} (h : t.Holds n τ) (hu : t.Within u) : u.Holds n τ := by
  cases h with
  | nominal has ho => exact .nominal (Stays.mono has hu) (Stays.mono ho hu)
  | union hparts => exact .union (Stays.mono hparts hu)
  | inter hparts => exact .inter (Stays.mono hparts hu)
  | param => exact .param
  | bottom => exact .bottom
  | error => exact .error

instance : Stays Holds := ⟨Holds.mono⟩

section Decl

variable {m : TypeNode}

theorem Holds.decl?_eq (h : t.Holds m τ) : m.decl? = τ.decl? := by cases h <;> rfl

theorem Holds.isOf_eq (h : t.Holds m τ) (d : DeclId) : m.isOf d = τ.isOf d := by cases h <;> rfl

theorem Holds.hint?_eq (h : t.Holds m τ) : m.hint? = τ.hint? := by cases h <;> rfl

theorem Holds.isParam_eq (h : t.Holds m τ) : m.isParam = τ.isParam := by cases h <;> rfl

theorem Holds.isComposite_eq (h : t.Holds m τ) : m.isComposite = τ.isComposite := by
  cases h <;> rfl

theorem Holds.args (h : t.Holds m τ) : Each HasTy t m.args τ.args := by
  cases h with
  | nominal has _ => exact has
  | union | inter | param | bottom | error => exact .nil

end Decl

/-! ## Equal positions, equal types; equal names, equal texts -/

theorem HasTy.eq_iff (hi : t.HasTy i τ) (hj : t.HasTy j σ) (h : t.Sound) : i = j ↔ τ = σ := by
  constructor
  · rintro rfl
    exact hi.2.symm.trans hj.2
  · rintro rfl
    exact h.pool.ty_inj hi.1 hj.1 (hi.2.trans hj.2.symm)

theorem HasName.eq_iff {m : Name} (hn : t.HasName n x) (hm : t.HasName m y) (h : t.Sound) :
    n = m ↔ x = y := by
  constructor
  · rintro rfl
    exact Option.some.inj (Eq.trans (Eq.symm hn) hm)
  · rintro rfl
    exact h.names.lookup_inj hn.lt hm.lt (hn.lookup.trans hm.lookup.symm)

theorem Sound.hasTy_bottom (h : t.Sound) : t.HasTy .bottom .bottom :=
  ⟨h.pool.grown.has_bottom, h.pool.ty_bottom⟩

theorem Sound.hasTy_error (h : t.Sound) : t.HasTy .error .error :=
  ⟨h.pool.grown.has_error, h.pool.ty_error⟩

end Tables

end TreeLowering.Shared
