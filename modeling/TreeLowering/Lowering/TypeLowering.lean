import TreeLowering.Lowering.Config
import TreeLowering.Lowering.Naming
set_option autoImplicit false

/-!
# Lowering: the computation that lowers a type

Lowering a type looks at nothing but the model and the settings.  On the way it
notes missing type arguments and the declaration names it asked for.  A type
whose arguments nest deeper than allowed has no answer at all.
-/

namespace TreeLowering

/-- What does not change while a program is lowered. -/
structure Env where
  model : Model
  config : Config
  /-- Depth to which type arguments may nest. -/
  depth : Nat
  deriving Inhabited

namespace Env

/-- A depth beyond any type that is written down. -/
def ample : Nat := 1000000

/-- The environment of a program. -/
def of (model : Model) (config : Config) : Env := ⟨model, config, ample⟩

end Env

/-- Something noted while a type is lowered. -/
inductive Note where
  /-- The type lacks an argument for the parameter of that name. -/
  | missingArgument (owner : Ty) (param : String)
  /-- A declaration name was asked for. -/
  | named (d : DeclId) (s : Spelling)
  deriving DecidableEq, Repr, Inhabited

/-- An answer with the notes taken on the way, or none when arguments nest too
deeply. -/
def TypeLowering (α : Type) : Type := Option (α × List Note)

namespace TypeLowering

variable {α β γ : Type}

/-- The answer, without a note. -/
def ret (a : α) : TypeLowering α := some (a, [])

/-- One computation after the other. -/
def andThen (x : TypeLowering α) (f : α → TypeLowering β) : TypeLowering β :=
  match x with
  | none => none
  | some (a, notes) =>
    match f a with
    | none => none
    | some (b, more) => some (b, notes ++ more)

instance : Monad TypeLowering where
  pure := ret
  bind := andThen

/-- Arguments nest too deeply. -/
def tooDeep : TypeLowering α := none

/-- Takes a note. -/
def note (n : Note) : TypeLowering Unit := some ((), [n])

/-- The answer alone. -/
def answer? (x : TypeLowering α) : Option α := x.map Prod.fst

/-- The notes taken, none when there is no answer. -/
def notes (x : TypeLowering α) : List Note :=
  match x with
  | none => []
  | some (_, ns) => ns

/-! ## Laws -/

theorem pure_eq_ret (a : α) : (pure a : TypeLowering α) = ret a := rfl

theorem bind_eq_andThen (x : TypeLowering α) (f : α → TypeLowering β) : x >>= f = andThen x f :=
  rfl

theorem some_andThen (a : α) (notes : List Note) (f : α → TypeLowering β) :
    andThen (some (a, notes)) f = Option.map (fun found => (found.1, notes ++ found.2)) (f a) := by
  rw [andThen]
  cases f a <;> rfl

theorem ret_andThen (a : α) (f : α → TypeLowering β) : andThen (ret a) f = f a := by
  simp only [ret, andThen]
  cases f a with
  | none => rfl
  | some p => rfl

theorem andThen_ret (x : TypeLowering α) : andThen x ret = x := by
  cases x with
  | none => rfl
  | some p =>
    simp only [andThen, ret, List.append_nil]
    rfl

theorem andThen_assoc (x : TypeLowering α) (f : α → TypeLowering β) (g : β → TypeLowering γ) :
    andThen (andThen x f) g = andThen x (fun a => andThen (f a) g) := by
  cases x with
  | none => rfl
  | some p =>
    obtain ⟨a, notes⟩ := p
    simp only [andThen]
    cases f a with
    | none => rfl
    | some q =>
      obtain ⟨b, more⟩ := q
      simp only
      cases g b with
      | none => rfl
      | some r =>
        simp only [List.append_assoc]
        rfl

instance : LawfulMonad TypeLowering :=
  LawfulMonad.mk' TypeLowering (fun x => andThen_ret x) (fun a f => ret_andThen a f)
    (fun x f g => andThen_assoc x f g)

/-! ## Answers of compositions -/

theorem answer?_pure (a : α) : (pure a : TypeLowering α).answer? = some a := rfl

theorem answer?_bind {x : TypeLowering α} {f : α → TypeLowering β} {b : β} :
    (x >>= f).answer? = some b ↔ ∃ a, x.answer? = some a ∧ (f a).answer? = some b := by
  rw [bind_eq_andThen]
  cases x with
  | none => simp [andThen, answer?]
  | some p =>
    obtain ⟨a, notes⟩ := p
    cases hf : f a <;> simp [andThen, answer?, hf]

theorem answer?_map (f : α → β) (x : TypeLowering α) : (f <$> x).answer? = x.answer?.map f := by
  rw [map_eq_pure_bind, bind_eq_andThen]
  cases x <;> rfl

end TypeLowering

end TreeLowering
