import TreeLowering.Lowering.Naming
import TreeLowering.Target.Fragment
set_option autoImplicit false

/-!
# Behaviour: values, traces and runs

What trees and lowered code compute with.  A raw value and the runtime object
that boxes it are the same value.  Calls that the runtime library does not
answer are recorded in a trace and answered by the machine.

An action reads and extends the trace; a run also has locals, the latest first.
An action that halts keeps the trace that it has reached.
-/

namespace TreeLowering.Behaviour

/-! ## Values -/

/-- A value. -/
inductive Value where
  | absent
  | bool (b : Bool)
  | int (n : Int)
  /-- A double by its bits. -/
  | float (bits : UInt64)
  | char (c : Char)
  | text (s : String)
  | seq (elems : List Value)
  /-- An iterator, by the elements that are left. -/
  | iter (rest : List Value)
  | entry (key item : Value)
  /-- A function value, of which only the written form of its type is known. -/
  | function (type : String)
  /-- An object that only the machine knows. -/
  | object (id : Nat)
  /-- A class as the receiver of a static call. -/
  | statics
  deriving Repr, Inhabited

namespace Value

mutual

/-- Value equality. -/
def same : Value → Value → Bool
  | absent, absent => true
  | bool b, bool b' => b == b'
  | int n, int n' => n == n'
  | float b, float b' => b == b'
  | char c, char c' => c == c'
  | text s, text s' => s == s'
  | seq vs, seq vs' => sameAll vs vs'
  | iter vs, iter vs' => sameAll vs vs'
  | entry k i, entry k' i' => same k k' && same i i'
  | function t, function t' => t == t'
  | object i, object i' => i == i'
  | statics, statics => true
  | _, _ => false

/-- Value equality, element by element. -/
def sameAll : List Value → List Value → Bool
  | [], [] => true
  | v :: vs, v' :: vs' => same v v' && sameAll vs vs'
  | _, _ => false

end

/-- The value is the absent value. -/
def isAbsent : Value → Bool
  | absent => true
  | _ => false

theorem same_absent (v : Value) : v.same absent = v.isAbsent := by
  cases v <;> rfl

end Value

/-! ## Actions and runs -/

/-- Something that happens outside the code. -/
inductive Event where
  /-- A call without a receiver. -/
  | call (method : String) (args : List Value)
  /-- A call on an object. -/
  | send (receiver : Value) (method : String) (args : List Value)
  deriving Repr, Inhabited

/-- What has happened, the oldest first. -/
abbrev Trace := List Event

/-- Why an action halts. -/
inductive Halt where
  /-- Nothing is known of what to do next. -/
  | stuck
  /-- A loop has made all the rounds that it may make. -/
  | outOfFuel
  /-- A loop meets the absent value as an element. -/
  | absentElement
  deriving DecidableEq, Repr, Inhabited

/-- An action that has halted, with its trace. -/
structure Stop where
  halt : Halt
  trace : Trace
  deriving Repr, Inhabited

/-- A computation that extends the trace. -/
abbrev Act : Type → Type := StateT Trace (Except Stop)

/-- Local variables, the latest first. -/
abbrev Locals := List (String × Value)

/-- An action over locals. -/
abbrev Run : Type → Type := StateT Locals Act

/-- Halts. -/
def halt {α : Type} (h : Halt) : Act α := fun trace => .error ⟨h, trace⟩

/-- The value of a test. -/
def truth : Value → Act Bool
  | .bool b => pure b
  | _ => halt .stuck

namespace Locals

/-- Reads a variable. -/
def read (x : String) (ρ : Locals) : Act Value :=
  match ρ.lookup x with
  | some v => pure v
  | none => halt .stuck

/-- Writes the latest variable of a name, if there is one. -/
def write? (x : String) (v : Value) : Locals → Option Locals
  | [] => none
  | (y, w) :: ρ => if y = x then some ((y, v) :: ρ) else ((y, w) :: ·) <$> write? x v ρ

/-- Writes a variable. -/
def write (x : String) (v : Value) (ρ : Locals) : Act Locals :=
  match ρ.write? x v with
  | some ρ' => pure ρ'
  | none => halt .stuck

/-- Forgets all but the oldest `n` variables. -/
def keep (n : Nat) (ρ : Locals) : Locals := ρ.drop (ρ.length - n)

end Locals

namespace Run

variable {α : Type}

/-- Reads a variable. -/
def lookup (x : String) : Run Value := fun ρ => (fun v => (v, ρ)) <$> ρ.read x

/-- Declares a variable. -/
def declare (x : String) (v : Value) : Run Unit := fun ρ => pure ((), (x, v) :: ρ)

/-- Writes a variable. -/
def assign (x : String) (v : Value) : Run Unit := fun ρ => (fun ρ' => ((), ρ')) <$> ρ.write x v

/-- Forgets the variables that were declared on the way. -/
def inScope (x : Run α) : Run α := fun ρ => (fun r => (r.1, Locals.keep ρ.length r.2)) <$> x ρ

end Run

/-! ## Control flow -/

/-- How a statement ends. -/
inductive Flow where
  | normal
  /-- The loop directly around is left. -/
  | leave
  | ret (value : Value)
  deriving Repr, Inhabited

/-- Goes on with a loop while its rounds end normally.  A round without an end
is one whose test fails. -/
def loop (round : Run (Option Flow)) : Nat → Run Flow
  | 0 => halt .outOfFuel
  | fuel + 1 => do
    match ← round with
    | none => pure .normal
    | some .normal => loop round fuel
    | some .leave => pure .normal
    | some (.ret v) => pure (.ret v)

/-! ## The machine -/

/-- What is outside the code: the answers to calls, and what the objects are. -/
structure Machine where
  /-- Rounds that each loop may make. -/
  rounds : Nat
  /-- The answer to a call, if there is one, given what has happened before. -/
  answer : Trace → Event → Option Value
  isInstance : Nat → String → Bool
  isIdentifiable : Value → Bool
  isIdentifiableObject : Value → Bool

/-- The class of a declaration of the language module. -/
def languageClass (d : DeclId) : String := Model.new.spelling d .full

/-- Classes whose instances are sequences. -/
def sequenceClasses : List String :=
  [Language.iterable, Language.fixedSized, Language.sequence].map languageClass

/-- Accessors that make a boxed value raw. -/
def unboxings : List String :=
  [Support.unboxInteger, Support.unboxFloat, Support.unboxString, Support.unboxChar,
    Support.unboxCodePoint, Support.unboxBoolean, Support.unboxArray]

namespace Machine

variable (machine : Machine)

/-- Lets something happen outside the code. -/
def perform (e : Event) : Act Value := fun trace =>
  match machine.answer trace e with
  | some v => .ok (v, trace ++ [e])
  | none => .error ⟨.stuck, trace⟩

/-- The value is an instance of the class. -/
def isA (v : Value) (cls : String) : Bool :=
  match v with
  | .absent | .iter _ | .statics => false
  | .bool _ => cls = Support.object || cls = languageClass Language.boolean
  | .int _ => cls = Support.object || cls = languageClass Language.integer
  | .float _ => cls = Support.object || cls = languageClass Language.float
  | .char _ => cls = Support.object || cls = languageClass Language.character
  | .text _ =>
    cls = Support.object || cls = languageClass Language.string || cls = Support.platformString
  | .seq _ => cls = Support.object || sequenceClasses.contains cls
  | .entry _ _ => cls = Support.object || cls = languageClass Language.entry
  | .function _ => cls = Support.object || cls = languageClass Language.callable
  | .object id => cls = Support.object || (!sequenceClasses.contains cls && machine.isInstance id cls)

/-- A static call of the support library. -/
def callStatic (method : String) (args : List Value) : Act Value :=
  if method = Support.box then
    match args with
    | [v] => pure v
    | _ => halt .stuck
  else if method = Support.holderValue then pure (.seq [])
  else if method = Support.isIdentifiable then
    match args with
    | [v] => pure (.bool (machine.isIdentifiable v))
    | _ => halt .stuck
  else if method = Support.isIdentifiableObject then
    match args with
    | [v] => pure (.bool (machine.isIdentifiableObject v))
    | _ => halt .stuck
  else halt .stuck

/-- A call of the runtime library's own methods, or of any other method. -/
def send (v : Value) (method : String) (args : List Value) : Act Value :=
  if unboxings.contains method && args.isEmpty then pure v
  else if method = Support.equals then
    match args with
    | [w] => pure (.bool (v.same w))
    | _ => halt .stuck
  else
    match v with
    | .statics => machine.callStatic method args
    | v =>
      if method = Support.iterator then
        match v with
        | .seq vs => pure (.iter vs)
        | _ => halt .stuck
      else if method = Support.head then
        match v with
        | .iter vs => pure (vs.head?.getD .absent)
        | _ => halt .stuck
      else if method = Support.tail then
        match v with
        | .iter vs => pure (.iter vs.tail)
        | _ => halt .stuck
      else if method = Support.isEmpty then
        match v with
        | .seq vs => pure (.bool vs.isEmpty)
        | _ => halt .stuck
      else if method = Support.size then
        match v with
        | .seq vs => pure (.int vs.length)
        | _ => halt .stuck
      else if method = Support.entryKey then
        match v with
        | .entry k _ => pure k
        | _ => halt .stuck
      else if method = Support.entryItem then
        match v with
        | .entry _ i => pure i
        | _ => halt .stuck
      else machine.perform (.send v method args)

/-- A call without a receiver. -/
def callLocal (method : String) (args : List Value) : Act Value :=
  machine.perform (.call method args)

end Machine

/-! ## Operators -/

/-- An operator on two values. -/
def combine (op : Target.BinaryOp) (v w : Value) : Act Value :=
  match op, v, w with
  | .eq, v, w => pure (.bool (v.same w))
  | .ne, v, w => pure (.bool (!v.same w))
  | .add, .text s, .text s' => pure (.text (s ++ s'))
  | .add, .int a, .int b => pure (.int (a + b))
  | .sub, .int a, .int b => pure (.int (a - b))
  | .mul, .int a, .int b => pure (.int (a * b))
  | .lt, .int a, .int b => pure (.bool (a < b))
  | .gt, .int a, .int b => pure (.bool (b < a))
  | _, _, _ => halt .stuck

/-- An operator on two computations; a conjunction or an alternative may leave
out the second one. -/
def operate {M : Type → Type} [Monad M] [MonadLiftT Act M] (op : Target.BinaryOp)
    (lhs rhs : M Value) : M Value :=
  match op with
  | .and => do
    if ← truth (← lhs) then do
      let b ← truth (← rhs)
      pure (.bool b)
    else pure (.bool false)
  | .or => do
    if ← truth (← lhs) then pure (.bool true)
    else do
      let b ← truth (← rhs)
      pure (.bool b)
  | op => do
    let v ← lhs
    let w ← rhs
    combine op v w

/-- Negation of a computation. -/
def negate {M : Type → Type} [Monad M] [MonadLiftT Act M] (operand : M Value) : M Value := do
  let b ← truth (← operand)
  pure (.bool !b)

end TreeLowering.Behaviour
