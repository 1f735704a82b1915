import TreeLowering.Assoc
import TreeLowering.Types.Basic
set_option autoImplicit false

/-!
# Types: substitution

Replacing type parameters acts on types: replacing each parameter by itself
changes nothing, and two replacements one after the other are one replacement.
-/

namespace TreeLowering

namespace Ty

mutual

/-- Replaces every type parameter by the type given for it. -/
def replace (f : ParamId → Ty) : Ty → Ty
  | nominal d as o h => nominal d (replaceAll f as) (replaceOuter f o) h
  | union ts => union (replaceAll f ts)
  | inter ts => inter (replaceAll f ts)
  | param p => f p
  | bottom => bottom
  | error => error

/-- Replaces type parameters in each type of a list. -/
def replaceAll (f : ParamId → Ty) : List Ty → List Ty
  | [] => []
  | t :: ts => replace f t :: replaceAll f ts

/-- Replaces type parameters in a qualifying type. -/
def replaceOuter (f : ParamId → Ty) : Option Ty → Option Ty
  | none => none
  | some t => some (replace f t)

end

theorem replaceAll_eq_map (f : ParamId → Ty) (ts : List Ty) :
    replaceAll f ts = ts.map (replace f) := by
  induction ts with
  | nil => rfl
  | cons t ts ih => simp [replaceAll, ih]

theorem replaceOuter_eq_map (f : ParamId → Ty) (o : Option Ty) :
    replaceOuter f o = o.map (replace f) := by
  cases o <;> rfl

/-! ## Replacement as an action -/

mutual

/-- Replacing every parameter by itself changes nothing. -/
theorem replace_param : ∀ t : Ty, replace .param t = t
  | nominal d as o h => by simp [replace, replaceAll_param as, replaceOuter_param o]
  | union ts => by simp [replace, replaceAll_param ts]
  | inter ts => by simp [replace, replaceAll_param ts]
  | param _ => by simp [replace]
  | bottom => by simp [replace]
  | error => by simp [replace]

theorem replaceAll_param : ∀ ts : List Ty, replaceAll .param ts = ts
  | [] => by simp [replaceAll]
  | t :: ts => by simp [replaceAll, replace_param t, replaceAll_param ts]

theorem replaceOuter_param : ∀ o : Option Ty, replaceOuter .param o = o
  | none => by simp [replaceOuter]
  | some t => by simp [replaceOuter, replace_param t]

end

mutual

/-- Two replacements one after the other are one replacement. -/
theorem replace_replace (f g : ParamId → Ty) :
    ∀ t : Ty, replace g (replace f t) = replace (fun p => replace g (f p)) t
  | nominal d as o h => by
    simp [replace, replaceAll_replaceAll f g as, replaceOuter_replaceOuter f g o]
  | union ts => by simp [replace, replaceAll_replaceAll f g ts]
  | inter ts => by simp [replace, replaceAll_replaceAll f g ts]
  | param _ => by simp [replace]
  | bottom => by simp [replace]
  | error => by simp [replace]

theorem replaceAll_replaceAll (f g : ParamId → Ty) :
    ∀ ts : List Ty, replaceAll g (replaceAll f ts) = replaceAll (fun p => replace g (f p)) ts
  | [] => by simp [replaceAll]
  | t :: ts => by simp [replaceAll, replace_replace f g t, replaceAll_replaceAll f g ts]

theorem replaceOuter_replaceOuter (f g : ParamId → Ty) :
    ∀ o : Option Ty, replaceOuter g (replaceOuter f o) = replaceOuter (fun p => replace g (f p)) o
  | none => by simp [replaceOuter]
  | some t => by simp [replaceOuter, replace_replace f g t]

end

end Ty

/-- Arguments for type parameters, at most one for each. -/
structure Subst where
  entries : List (ParamId × Ty)
  deriving Repr, Inhabited, DecidableEq

namespace Subst

/-- No arguments. -/
def empty : Subst := ⟨[]⟩

/-- The argument for a parameter. -/
def get? (s : Subst) (p : ParamId) : Option Ty := s.entries.lookup p

/-- Gives a parameter an argument, in place of any it had. -/
def insert (s : Subst) (p : ParamId) (t : Ty) : Subst :=
  ⟨Assoc.set p t s.entries⟩

theorem get?_empty (p : ParamId) : empty.get? p = none := rfl

theorem get?_insert (s : Subst) (p q : ParamId) (t : Ty) :
    (s.insert p t).get? q = if q = p then some t else s.get? q :=
  Assoc.lookup_set p q t s.entries

/-- Gives parameters their arguments one after the other. -/
def insertAll (s : Subst) (entries : List (ParamId × Ty)) : Subst :=
  entries.foldl (fun s e => s.insert e.1 e.2) s

/-- The arguments in the order of their parameters. -/
def sorted (s : Subst) : List (ParamId × Ty) :=
  s.entries.mergeSort (fun a b => a.1.index ≤ b.1.index)

end Subst

/-- Replaces the type parameters that have an argument. -/
def Ty.subst (s : Subst) (t : Ty) : Ty := t.replace (fun p => (s.get? p).getD (.param p))

theorem Ty.subst_empty (t : Ty) : t.subst .empty = t := by
  simpa [Ty.subst, Subst.get?_empty] using Ty.replace_param t

end TreeLowering
