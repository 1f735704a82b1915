import TreeLowering.Lowering.State
set_option autoImplicit false

/-!
# Proofs: what a lowering yields

A lowering that succeeds yields a result and leaves a state.  The lemmas here
take such a run apart, step by step, so that no proof about a part of the
lowering opens its monad.  Along a run the loop guard and what source names
stand for stay what they are, and synthetic numbers only grow.
-/

namespace TreeLowering

namespace Lowering

variable {α β : Type} {s s' : LowerState}

/-- From one state the computation yields a result and leaves another state. -/
def Yields (x : Lowering α) (s : LowerState) (a : α) (s' : LowerState) : Prop :=
  x.runFrom s = (.ok a, s')

theorem exists_yields {x : Lowering α} (h : (x.runFrom s).1.isOk = true) :
    ∃ a s', Yields x s a s' := by
  unfold Yields
  cases hx : x.runFrom s with
  | mk r s' =>
    cases r with
    | ok a => exact ⟨a, s', rfl⟩
    | error e =>
      rw [hx] at h
      contradiction

theorem yields_pure {a b : α} : Yields (pure a) s b s' ↔ b = a ∧ s' = s := by
  constructor
  · intro h
    cases h
    exact ⟨rfl, rfl⟩
  · rintro ⟨rfl, rfl⟩
    rfl

theorem runFrom_bind (x : Lowering α) (f : α → Lowering β) (s : LowerState) :
    (x >>= f).runFrom s =
      match x.runFrom s with
      | (.ok a, s') => (f a).runFrom s'
      | (.error e, s') => (.error e, s') := by
  have hrun : (x >>= f).runFrom s =
      (match x.runFrom s with
        | (a, s') => (ExceptT.bindCont f a).run s' : Except LowerError β × LowerState) := rfl
  rw [hrun]
  cases x.runFrom s with
  | mk a s' => cases a <;> rfl

theorem yields_bind {x : Lowering α} {f : α → Lowering β} {b : β} :
    Yields (x >>= f) s b s' ↔ ∃ a t, Yields x s a t ∧ Yields (f a) t b s' := by
  unfold Yields
  rw [runFrom_bind]
  cases hx : x.runFrom s with
  | mk a t =>
    cases a with
    | error e => simp
    | ok a =>
      constructor
      · intro h
        exact ⟨a, t, rfl, h⟩
      · rintro ⟨a', t', heq, h⟩
        cases heq
        exact h

theorem yields_map {x : Lowering α} {f : α → β} {b : β} :
    Yields (f <$> x) s b s' ↔ ∃ a, Yields x s a s' ∧ b = f a := by
  rw [map_eq_pure_bind, yields_bind]
  constructor
  · rintro ⟨a, t, hx, hpure⟩
    obtain ⟨rfl, rfl⟩ := yields_pure.mp hpure
    exact ⟨a, hx, rfl⟩
  · rintro ⟨a, hx, rfl⟩
    exact ⟨a, s', hx, yields_pure.mpr ⟨rfl, rfl⟩⟩

theorem yields_ofType {x : TypeLowering α} {a : α} :
    Yields (liftM x) s a s' ↔ ∃ notes, x = some (a, notes) ∧ s' = s.addNotes notes := by
  unfold Yields
  cases x with
  | none =>
    show (Except.error LowerError.endlessType, s) = (Except.ok a, s') ↔ _
    simp
  | some p =>
    obtain ⟨b, notes⟩ := p
    show (Except.ok b, s.addNotes notes) = (Except.ok a, s') ↔ _
    constructor
    · intro h
      cases h
      exact ⟨notes, rfl, rfl⟩
    · rintro ⟨notes', h, rfl⟩
      cases h
      rfl

theorem Yields.answer {x : TypeLowering α} {a : α} (h : Yields (liftM x) s a s') :
    x.answer? = some a := by
  obtain ⟨notes, rfl, _⟩ := yields_ofType.mp h
  rfl

theorem exists_yields_of_answer {x : TypeLowering α} {a : α} (h : x.answer? = some a)
    (s : LowerState) : ∃ s', Yields (liftM x) s a s' := by
  cases x with
  | none => contradiction
  | some found =>
    obtain ⟨b, notes⟩ := found
    cases h
    exact ⟨s.addNotes notes, yields_ofType.mpr ⟨notes, rfl, rfl⟩⟩

theorem yields_reads {f : LowerState → α} {a : α} :
    Yields (reads f) s a s' ↔ a = f s ∧ s' = s := by
  constructor
  · intro h
    cases h
    exact ⟨rfl, rfl⟩
  · rintro ⟨rfl, rfl⟩
    rfl

theorem yields_change {f : LowerState → LowerState} {u : Unit} :
    Yields (change f) s u s' ↔ s' = f s := by
  constructor
  · intro h
    cases h
    rfl
  · rintro rfl
    rfl

theorem not_yields_fail {e : LowerError} {a : α} : ¬ Yields (fail e) s a s' := by
  intro h
  cases h

theorem yields_fresh {base name : String} :
    Yields (fresh base) s name s' ↔
      name = (s.names.fresh base).1 ∧ s' = { s with names := (s.names.fresh base).2 } := by
  constructor
  · intro h
    cases h
    exact ⟨rfl, rfl⟩
  · rintro ⟨rfl, rfl⟩
    rfl

theorem yields_withLoopGuard {guard : Option String} {x : Lowering α} {a : α} :
    Yields (withLoopGuard guard x) s a s' ↔
      ∃ t, Yields x { s with loopGuard := guard } a t ∧
        s' = { t with loopGuard := s.loopGuard } := by
  have hrun : (withLoopGuard guard x).runFrom s =
      ((x.runFrom { s with loopGuard := guard }).1,
        { (x.runFrom { s with loopGuard := guard }).2 with loopGuard := s.loopGuard }) := rfl
  unfold Yields
  rw [hrun]
  cases x.runFrom { s with loopGuard := guard } with
  | mk r t =>
    constructor
    · intro h
      cases h
      exact ⟨t, rfl, rfl⟩
    · rintro ⟨t', h, rfl⟩
      cases h
      rfl

theorem yields_withReturns {returns : ReturnForm} {x : Lowering α} {a : α} :
    Yields (withReturns returns x) s a s' ↔
      ∃ t, Yields x { s with returns := some returns } a t ∧
        s' = { t with returns := s.returns } := by
  have hrun : (withReturns returns x).runFrom s =
      ((x.runFrom { s with returns := some returns }).1,
        { (x.runFrom { s with returns := some returns }).2 with returns := s.returns }) := rfl
  unfold Yields
  rw [hrun]
  cases x.runFrom { s with returns := some returns } with
  | mk r t =>
    constructor
    · intro h
      cases h
      exact ⟨t, rfl, rfl⟩
    · rintro ⟨t', h, rfl⟩
      cases h
      rfl

theorem yields_withReplacement {name other : String} {x : Lowering α} {a : α} :
    Yields (withReplacement name other x) s a s' ↔
      ∃ t, Yields x { s with names := (s.names.replace name other).2 } a t ∧
        s' = { t with names := t.names.restore name (s.names.find? name) } := by
  have hrun : (withReplacement name other x).runFrom s =
      ((x.runFrom { s with names := (s.names.replace name other).2 }).1,
        { (x.runFrom { s with names := (s.names.replace name other).2 }).2 with
          names := (x.runFrom { s with names := (s.names.replace name other).2 }).2.names.restore
            name (s.names.find? name) }) := rfl
  unfold Yields
  rw [hrun]
  cases x.runFrom { s with names := (s.names.replace name other).2 } with
  | mk r t =>
    constructor
    · intro h
      cases h
      exact ⟨t, rfl, rfl⟩
    · rintro ⟨t', h, rfl⟩
      cases h
      rfl

/-! ## What every run yields -/

section

variable {P : α → Prop} {Q : β → Prop} {x : Lowering α}

/-- Whatever the computation yields, from whatever state, satisfies `P`. -/
def Gives (P : α → Prop) (x : Lowering α) : Prop := ∀ ⦃s a s'⦄, Yields x s a s' → P a

namespace Gives

theorem pure {a : α} (h : P a) : Gives P (Pure.pure a) := by
  intro s b s' hb
  obtain ⟨rfl, _⟩ := yields_pure.mp hb
  exact h

theorem bind {f : α → Lowering β} (hx : Gives P x) (hf : ∀ a, P a → Gives Q (f a)) :
    Gives Q (x >>= f) := by
  intro s b s' hb
  obtain ⟨a, t, ha, hb⟩ := yields_bind.mp hb
  exact hf a (hx ha) hb

/-- Nothing is asked of the first of two computations. -/
theorem after {f : α → Lowering β} (hf : ∀ a, Gives Q (f a)) : Gives Q (x >>= f) := by
  intro s b s' hb
  obtain ⟨a, t, _, hb⟩ := yields_bind.mp hb
  exact hf a hb

theorem map {f : α → β} (hx : Gives P x) (hf : ∀ a, P a → Q (f a)) : Gives Q (f <$> x) := by
  intro s b s' hb
  obtain ⟨a, ha, rfl⟩ := yields_map.mp hb
  exact hf a (hx ha)

theorem ofType {x : TypeLowering α} (h : ∀ a, x.answer? = some a → P a) : Gives P (liftM x) :=
  fun _ _ _ ha => h _ ha.answer

theorem fail {e : LowerError} : Gives P (Lowering.fail e) := fun _ _ _ h => (not_yields_fail h).elim

theorem withLoopGuard {guard : Option String} (hx : Gives P x) :
    Gives P (Lowering.withLoopGuard guard x) := by
  intro s a s' h
  obtain ⟨t, ha, _⟩ := yields_withLoopGuard.mp h
  exact hx ha

theorem withReturns {returns : ReturnForm} (hx : Gives P x) :
    Gives P (Lowering.withReturns returns x) := by
  intro s a s' h
  obtain ⟨t, ha, _⟩ := yields_withReturns.mp h
  exact hx ha

theorem withReplacement {name other : String} (hx : Gives P x) :
    Gives P (Lowering.withReplacement name other x) := by
  intro s a s' h
  obtain ⟨t, ha, _⟩ := yields_withReplacement.mp h
  exact hx ha

end Gives

end

end Lowering

namespace LowerState

/-- One state comes after another: source names stand for what they stood for,
synthetic numbers have only grown, and the loop guard is the same. -/
structure Follows (s s' : LowerState) : Prop where
  find : ∀ x, s'.names.find? x = s.names.find? x
  next : s.names.next ≤ s'.names.next
  guard : s'.loopGuard = s.loopGuard

namespace Follows

theorem refl (s : LowerState) : s.Follows s := ⟨fun _ => rfl, Nat.le_refl _, rfl⟩

theorem trans {s t u : LowerState} (h : s.Follows t) (h' : t.Follows u) : s.Follows u :=
  ⟨fun x => (h'.find x).trans (h.find x), Nat.le_trans h.next h'.next, h'.guard.trans h.guard⟩

/-- Only the names and the guard matter. -/
theorem of_eq {s s' : LowerState} (hnames : s'.names = s.names)
    (hguard : s'.loopGuard = s.loopGuard) : s.Follows s' :=
  ⟨fun x => by rw [hnames], Nat.le_of_eq (by rw [hnames]), hguard⟩

theorem resolve {s s' : LowerState} (h : s.Follows s') (x : String) :
    s'.names.resolve x = s.names.resolve x := by
  simp only [NameScope.resolve, h.find x]

theorem addNote (s : LowerState) (n : Note) : s.Follows (s.addNote n) := by
  cases n <;> exact of_eq rfl rfl

theorem addNotes (s : LowerState) (notes : List Note) : s.Follows (s.addNotes notes) := by
  induction notes generalizing s with
  | nil => exact .refl s
  | cons n ns ih => exact (addNote s n).trans (ih (s.addNote n))

theorem ofType {α : Type} {x : TypeLowering α} {s s' : LowerState} {a : α}
    (h : Lowering.Yields (liftM x) s a s') : s.Follows s' := by
  obtain ⟨notes, _, rfl⟩ := Lowering.yields_ofType.mp h
  exact addNotes s notes

theorem fresh {s s' : LowerState} {base name : String}
    (h : Lowering.Yields (Lowering.fresh base) s name s') : s.Follows s' := by
  obtain ⟨_, rfl⟩ := Lowering.yields_fresh.mp h
  exact ⟨fun _ => rfl, Nat.le_succ _, rfl⟩

/-- A computation that runs under a guard of its own puts the guard back. -/
theorem withLoopGuard {s t : LowerState} {guard : Option String}
    (h : Follows { s with loopGuard := guard } t) :
    s.Follows { t with loopGuard := s.loopGuard } :=
  ⟨h.find, h.next, rfl⟩

/-- A computation that runs under a replacement puts the name back. -/
theorem withReplacement {s t : LowerState} {name other : String}
    (h : Follows { s with names := (s.names.replace name other).2 } t) :
    s.Follows { t with names := t.names.restore name (s.names.find? name) } := by
  have hnext : ∀ (n : NameScope) (x : String) (y : Option String), (n.set x y).next = n.next := by
    intro n x y
    cases y <;> rfl
  refine ⟨fun x => ?_, ?_, h.guard⟩
  · simp only [NameScope.restore, NameScope.find?_set]
    split
    · rename_i hx
      rw [hx]
    · rename_i hx
      rw [h.find x]
      simp only [NameScope.replace, NameScope.find?_set, if_neg hx]
  · have := h.next
    simp only [NameScope.restore, NameScope.replace, hnext] at this ⊢
    exact this

end Follows

end LowerState

end TreeLowering
