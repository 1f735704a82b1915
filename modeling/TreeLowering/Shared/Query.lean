import TreeLowering.Lowering.Erasure
import TreeLowering.Shared.Model
set_option autoImplicit false

/-!
# Shared tables: queries about types

What the lowering asks about types, where these are positions in a pool.  Many
queries build types on the way, so asking makes the pool grow.  Types are told
apart by their positions.

The types that a type is made of have smaller positions, which bounds every
search inside one type.
-/

namespace TreeLowering

namespace TypePool

/-! ## What is read off the nodes -/

/-- The type admits the absent value, where types nest `fuel` deep at most. -/
def isOptionalWithin (p : TypePool) : Nat → TypeIdx → Bool
  | 0, _ => false
  | fuel + 1, i =>
    match p.node i with
    | .nominal d _ _ _ => d == Language.nothing || d == Language.void
    | .union cases => cases.any (isOptionalWithin p fuel)
    | _ => false

/-- The type and the types around it, innermost first, `fuel` of them at most. -/
def segmentsWithin (p : TypePool) : Nat → TypeIdx → List TypeIdx
  | 0, _ => []
  | fuel + 1, i =>
    i :: match p.node i with
      | .nominal _ _ (some outer) _ => segmentsWithin p fuel outer
      | _ => []

/-- The cases that are not the absent value's own type. -/
def presentCases (p : TypePool) (cases : List TypeIdx) : List TypeIdx :=
  cases.filter (fun c => !(p.node c).isOf Language.nothing)

end TypePool

namespace Shared

open Tabled

namespace Tabled

/-- The type and the types around it, innermost first. -/
def segments (i : TypeIdx) : Tabled (List TypeIdx) :=
  reading fun t => t.pool.segmentsWithin (i.index + 1) i

/-- The declaration of a nominal type. -/
def decl? (i : TypeIdx) : Tabled (Option DeclId) := TypeNode.decl? <$> nodeAt i

/-- The type is a reference to the declaration, whatever its arguments. -/
def isOf (i : TypeIdx) (d : DeclId) : Tabled Bool := (·.isOf d) <$> nodeAt i

/-- Arguments of a nominal type. -/
def args (i : TypeIdx) : Tabled (List TypeIdx) := TypeNode.args <$> nodeAt i

/-- Representation hint of a nominal type. -/
def hint? (i : TypeIdx) : Tabled (Option Hint) := TypeNode.hint? <$> nodeAt i

/-- The type is a type parameter. -/
def isParam (i : TypeIdx) : Tabled Bool := TypeNode.isParam <$> nodeAt i

/-- The type is a union or an intersection. -/
def isComposite (i : TypeIdx) : Tabled Bool := TypeNode.isComposite <$> nodeAt i

/-- The type without its hint. -/
def withoutHint (i : TypeIdx) : Tabled TypeIdx := building (Pooled.building (·.withoutHint i))

/-- The type with type parameters replaced. -/
def subst (s : PoolSubst) (i : TypeIdx) : Tabled TypeIdx := building (s.apply (i.index + 1) i)

/-! ## The absent value -/

/-- The type admits the absent value. -/
def isOptional (i : TypeIdx) : Tabled Bool :=
  reading fun t => t.pool.isOptionalWithin (i.index + 1) i

/-- The cases that are not the absent value's own type. -/
def presentCases (cases : List TypeIdx) : Tabled (List TypeIdx) :=
  reading fun t => t.pool.presentCases cases

/-- The sole member of a union or intersection of one. -/
def collapse (i : TypeIdx) : Tabled TypeIdx := do
  match ← nodeAt i with
  | .union [only] => pure only
  | .inter [only] => pure only
  | _ => pure i

/-- Without a hint, the type is the given one. -/
def isExactly (i expected : TypeIdx) : Tabled Bool := do
  let plain ← withoutHint i
  pure (decide (plain = expected))

/-- The type is a function value's own type. -/
def isCallable (i : TypeIdx) : Tabled Bool := isOf i Language.callable

end Tabled

namespace Model

variable (m : Model)

/-- The type without its absent value.  A type parameter left alone becomes its
intersection with the object type, and any other case left alone loses its
representation hint. -/
def definite (i : TypeIdx) : Tabled TypeIdx := do
  match ← nodeAt i with
  | .nominal d _ _ _ =>
    if d = Language.void then pure m.builtins.object
    else if d = Language.nothing then pure .bottom
    else pure i
  | .union cases =>
    match ← presentCases cases with
    | [] => pure .bottom
    | [only] => do
      let n ← nodeAt only
      if n.isOf Language.void then pure m.builtins.object
      else if n.isParam then make (.inter [only, m.builtins.object])
      else withoutHint only
    | rest => make (.union rest)
  | _ => pure i

/-- The type without its absent case, which keeps its hint. -/
def nonNull (i : TypeIdx) : Tabled TypeIdx := do
  match ← nodeAt i with
  | .nominal d _ _ _ =>
    if d = Language.void then pure m.builtins.object
    else if d = Language.nothing then pure .bottom
    else pure i
  | .union cases =>
    match ← presentCases cases with
    | [] => pure .bottom
    | [only] => pure only
    | rest => make (.union rest)
  | _ => pure i

/-- The type without its absent value, if it admits one. -/
def presentPart (i : TypeIdx) : Tabled TypeIdx := do
  if ← isOptional i then m.definite i else pure i

/-- A type parameter in place of its intersection with the object type. -/
def bareParam (i : TypeIdx) : Tabled TypeIdx := do
  match ← nodeAt i with
  | .inter [param, object] => do
    if ← isParam param then pure (if object = m.builtins.object then param else i) else pure i
  | _ => pure i

/-- The type that decisions about erasure look at: without the absent value,
without a union or intersection of one, and with a type parameter in place of
its intersection with the object type. -/
def simplify (i : TypeIdx) : Tabled TypeIdx := do
  let present ← m.presentPart i
  let only ← collapse present
  m.bareParam only

/-! ## Supertypes -/

/-- The arguments of a nominal type and of the types around it. -/
def substitution (i : TypeIdx) : Tabled PoolSubst :=
  building (m.pooled.substitution (i.index + 1) i)

/-- The instantiation at the bottom type. -/
def bottomInstance (target : DeclId) : Tabled TypeIdx :=
  make (.nominal target (List.replicate (m.decl target).typeParams.length .bottom) none none)

/-- The instantiation that covers all the given ones. -/
def joinInstances (target : DeclId) (found : List TypeIdx) : Tabled (Option TypeIdx) :=
  building (m.pooled.joinInstances target found)

/-- The instantiation of `target` above a type in which types nest `depth` deep
at most, where `up` climbs on from the declared supertypes and bounds.  The
extended type comes before the satisfied types, in source order; a union reaches
`target` when each case other than bottom does. -/
def climb (up : TypeIdx → Tabled (Option TypeIdx)) (target : DeclId) :
    Nat → TypeIdx → Tabled (Option TypeIdx)
  | 0, _ => halt .endless
  | depth + 1, i => do
    match ← nodeAt i with
    | .nominal d _ _ _ =>
      if d = target then pure (some i)
      else do
        let s ← m.substitution i
        firstOf (fun j => subst s j >>= up) (m.decl d).supertypes
    | .param p => firstOf up (m.param p).bounds
    | .inter bounds => firstOf (climb up target depth) bounds
    | .union cases => do
      match ← allOf (climb up target depth) (cases.filter (· ≠ .bottom)) with
      | none => pure none
      | some found => m.joinInstances target found
    | .bottom => some <$> m.bottomInstance target
    | .error => pure none

/-- Climbs through at most `fuel` declarations and bounds. -/
def supertypeWithin (target : DeclId) : Nat → TypeIdx → Tabled (Option TypeIdx)
  | 0, i => m.climb (fun _ => pure none) target (i.index + 1) i
  | fuel + 1, i => m.climb (supertypeWithin target fuel) target (i.index + 1) i

/-- How many declarations and bounds a climb may go through. -/
def climbLimit : Nat := m.decls.size + m.params.size + TreeLowering.Model.ampleClimb

/-- The instantiation of `target` that a type is a subtype of. -/
def supertype? (i : TypeIdx) (target : DeclId) : Tabled (Option TypeIdx) :=
  m.supertypeWithin target m.climbLimit i

/-- The type is a subtype of some instantiation of `target`. -/
def isSubtypeOf (i : TypeIdx) (target : DeclId) : Tabled Bool :=
  Option.isSome <$> m.supertype? i target

/-! ## Elements and results -/

/-- First argument of the instantiation of `target` that a type is a subtype
of. -/
def firstArgument? (i : TypeIdx) (target : DeclId) : Tabled (Option TypeIdx) := do
  match ← m.supertype? i target with
  | none => pure none
  | some found => List.head? <$> args found

/-- Element type of an iterable type. -/
def iteratedType? (i : TypeIdx) : Tabled (Option TypeIdx) := m.firstArgument? i Language.iterable

/-- Result type of a callable type. -/
def callableResult? (i : TypeIdx) : Tabled (Option TypeIdx) :=
  m.firstArgument? i Language.callable

/-- The iterable type above a type, when its element is not the bottom type. -/
def nonemptyIterable? (i : TypeIdx) : Tabled (Option TypeIdx) := do
  match ← m.supertype? i Language.iterable with
  | none => pure none
  | some found => do
    let as ← args found
    pure (if as.head?.any (· ≠ .bottom) then some found else none)

/-- Arguments of the entry type above a type. -/
def entryArguments (i : TypeIdx) : Tabled (List TypeIdx) := do
  match ← m.supertype? i Language.entry with
  | none => pure []
  | some found => args found

/-! ## Erasure -/

def isString (i : TypeIdx) : Tabled Bool := isExactly i m.builtins.string
def isInteger (i : TypeIdx) : Tabled Bool := isExactly i m.builtins.integer
def isFloat (i : TypeIdx) : Tabled Bool := isExactly i m.builtins.float
def isCharacter (i : TypeIdx) : Tabled Bool := isExactly i m.builtins.character

/-- A string, optional or not, that stays a platform string. -/
def isPlatformString (i : TypeIdx) : Tabled Bool := do
  let present ← m.nonNull i
  let hint ← hint? present
  pure (hint == some .platformString)

/-- A type parameter, optional or not. -/
def isTypeParameter (i : TypeIdx) : Tabled Bool := m.nonNull i >>= isParam

/-- The type is the base exception type. -/
def erasesToException (i : TypeIdx) : Tabled Bool := do
  let simple ← m.simplify i
  isExactly simple m.builtins.exception

/-- The iterable type above the type without its absent value, when its element
is not the bottom type. -/
def iterableShape? (i : TypeIdx) : Tabled (Option TypeIdx) :=
  m.definite i >>= m.nonemptyIterable?

/-- The type lowers to the root object.  A union or intersection with an
iterable shape lowers to that shape instead. -/
def erasesToObject (i : TypeIdx) : Tabled Bool := do
  let simple ← m.simplify i
  match ← nodeAt simple with
  | .nominal d as o _ =>
    pure (o.isNone && as.isEmpty && TreeLowering.Model.rootDecls.contains d)
  | .bottom => pure true
  | .union _ | .inter _ => Option.isNone <$> m.iterableShape? simple
  | .param _ | .error => pure false

/-- The Boolean type or one of its cases. -/
def isBoolean (i : TypeIdx) : Tabled Bool :=
  if i = .bottom then pure false else m.isSubtypeOf i Language.boolean

/-- A type whose values have a raw form. -/
def isBasic (i : TypeIdx) : Tabled Bool :=
  either (m.isString i) (either (m.isBoolean i)
    (either (m.isInteger i) (either (m.isFloat i) (m.isCharacter i))))

/-- An array type. -/
def isArray (i : TypeIdx) : Tabled Bool :=
  if i = .bottom then pure false else m.isSubtypeOf i Language.array

/-- Values of the type can be raw. -/
def canUnbox (i : TypeIdx) : Tabled Bool := either (m.isBasic i) (m.isPlatformString i)

end Model

end Shared

end TreeLowering
