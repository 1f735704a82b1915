import TreeLowering.Model.Display
import TreeLowering.Proofs.TypePart
import TreeLowering.Proofs.WrittenWord
set_option autoImplicit false

/-!
# Proofs: displayed types

A displayed type has no parentheses: a question mark stands after the type that may be
absent, an ampersand between bounds, and a bar between cases.  So it can be read only
when the question mark binds more tightly than the ampersand and the ampersand more
tightly than the bar.  A type whose parts bind like that is determined by its display,
but for the place of the absent value's type in a union of two cases.  It is read
backwards: what a type ends with tells what kind of type it is.
-/

namespace TreeLowering

/-! ## Optional types with the absent value's type first -/

namespace Ty

/-- Of two cases one of which is the absent value's type, the case that is shown and the
one that is not. -/
def optionalCases? : List Ty → Option (Ty × Ty)
  | [a, b] =>
    if a.isOf Language.nothing then some (b, a)
    else if b.isOf Language.nothing then some (a, b)
    else none
  | _ => none

/-- The cases, with the one that is not shown first. -/
def absentFirst (cases : List Ty) : List Ty :=
  match optionalCases? cases with
  | some (shown, absent) => [absent, shown]
  | none => cases

mutual

/-- The type with the absent value's type first in each union of it and one other case. -/
def nothingFirst : Ty → Ty
  | nominal d as o h => nominal d (nothingFirstAll as) (nothingFirstOuter o) h
  | union cases => union (absentFirst (nothingFirstAll cases))
  | inter bounds => inter (nothingFirstAll bounds)
  | t => t

def nothingFirstAll : List Ty → List Ty
  | [] => []
  | t :: ts => nothingFirst t :: nothingFirstAll ts

def nothingFirstOuter : Option Ty → Option Ty
  | none => none
  | some t => some (nothingFirst t)

end

theorem nothingFirstAll_eq_map (ts : List Ty) : nothingFirstAll ts = ts.map nothingFirst := by
  induction ts with
  | nil => simp [nothingFirstAll]
  | cons t ts ih => simp [nothingFirstAll, ih]

theorem nothingFirstOuter_eq_map (o : Option Ty) : nothingFirstOuter o = o.map nothingFirst := by
  cases o <;> simp [nothingFirstOuter]

theorem isOf_nothingFirst (t : Ty) (d : DeclId) : t.nothingFirst.isOf d = t.isOf d := by
  cases t <;> simp [nothingFirst, isOf, decl?]

theorem optionalCases?_map (cases : List Ty) :
    optionalCases? (cases.map nothingFirst) =
      (optionalCases? cases).map (Prod.map nothingFirst nothingFirst) := by
  match cases with
  | [] | [_] | _ :: _ :: _ :: _ => rfl
  | [a, b] =>
    simp only [optionalCases?, List.map_cons, List.map_nil, isOf_nothingFirst]
    repeat' split
    all_goals rfl

theorem isOf_nothing_of_optionalCases? {cases : List Ty} {shown absent : Ty}
    (h : optionalCases? cases = some (shown, absent)) : absent.isOf Language.nothing = true := by
  unfold optionalCases? at h
  split at h
  · split at h
    · rename_i habsent
      cases h
      exact habsent
    · split at h
      · rename_i habsent
        cases h
        exact habsent
      · contradiction
  · contradiction

theorem nothingFirst_union_of_some {cases : List Ty} {shown absent : Ty}
    (h : optionalCases? cases = some (shown, absent)) :
    (union cases).nothingFirst = union [absent.nothingFirst, shown.nothingFirst] := by
  rw [nothingFirst, nothingFirstAll_eq_map, absentFirst, optionalCases?_map, h]
  rfl

theorem nothingFirst_union_of_none {cases : List Ty} (h : optionalCases? cases = none) :
    (union cases).nothingFirst = union (cases.map nothingFirst) := by
  rw [nothingFirst, nothingFirstAll_eq_map, absentFirst, optionalCases?_map, h]
  rfl

end Ty

namespace Model

open Ty Text

variable (m : Model)

/-! ## Displays by the form of a type -/

theorem displayUnion_map (f : Ty → String) (cases : List Ty) :
    displayUnion cases (cases.map f) =
      match optionalCases? cases with
      | some (shown, _) => f shown ++ "?"
      | none => "|".intercalate (cases.map f) := by
  match cases with
  | [] | [_] | _ :: _ :: _ :: _ => rfl
  | [a, b] =>
    have htwo : f a ++ "|" ++ f b = "|".intercalate [f a, f b] := rfl
    simp only [displayUnion, optionalCases?, List.map_cons, List.map_nil, htwo]
    repeat' split
    all_goals first | rfl | simp_all

theorem display_union_of_some {cases : List Ty} {shown absent : Ty}
    (h : optionalCases? cases = some (shown, absent)) :
    m.display (.union cases) = m.display shown ++ "?" := by
  rw [display, displayAll_eq_map, displayUnion_map, h]

theorem display_union_of_none {cases : List Ty} (h : optionalCases? cases = none) :
    m.display (.union cases) = "|".intercalate (cases.map m.display) := by
  rw [display, displayAll_eq_map, displayUnion_map, h]

theorem display_inter (bounds : List Ty) :
    m.display (.inter bounds) = "&".intercalate (bounds.map m.display) := by
  rw [display, displayAll_eq_map]

theorem optionalCases?_pair {shown absent : Ty} (h : absent.isOf Language.nothing = true) :
    optionalCases? [absent, shown] = some (shown, absent) := by
  simp [optionalCases?, h]

theorem mem_of_optionalCases? {cases : List Ty} {shown absent : Ty}
    (h : optionalCases? cases = some (shown, absent)) : shown ∈ cases ∧ absent ∈ cases := by
  unfold optionalCases? at h
  split at h
  · split at h <;> [skip; split at h] <;> cases h <;> simp
  · contradiction

theorem display_nothingFirst_union {cases : List Ty}
    (h : ∀ c ∈ cases, m.display c.nothingFirst = m.display c) :
    m.display (Ty.union cases).nothingFirst = m.display (.union cases) := by
  cases hoptional : optionalCases? cases with
  | some found =>
    obtain ⟨shown, absent⟩ := found
    have habsent := isOf_nothing_of_optionalCases? hoptional
    rw [← isOf_nothingFirst] at habsent
    rw [nothingFirst_union_of_some hoptional, display_union_of_some m (optionalCases?_pair habsent),
      display_union_of_some m hoptional, h shown (mem_of_optionalCases? hoptional).1]
  | none =>
    have hmap : optionalCases? (cases.map nothingFirst) = none := by
      rw [optionalCases?_map, hoptional]
      rfl
    rw [nothingFirst_union_of_none hoptional, display_union_of_none m hmap,
      display_union_of_none m hoptional, List.map_map]
    exact congrArg _ (List.map_inj_left.mpr h)

mutual

/-- The place of the absent value's type cannot be seen. -/
theorem display_nothingFirst : ∀ t : Ty, m.display t.nothingFirst = m.display t
  | .nominal d as o h => by
    have hempty : (nothingFirstAll as).isEmpty = as.isEmpty := by
      rw [nothingFirstAll_eq_map, List.isEmpty_map]
    simp only [nothingFirst, display, display_nothingFirstAll as, display_nothingFirstOuter o,
      hempty]
  | .union cases =>
    m.display_nothingFirst_union (by
      have hall := display_nothingFirstAll cases
      rw [nothingFirstAll_eq_map, displayAll_eq_map, displayAll_eq_map, List.map_map] at hall
      exact List.map_inj_left.mp hall)
  | .inter bounds => by simp only [nothingFirst, display, display_nothingFirstAll bounds]
  | .param _ | .bottom | .error => by simp only [nothingFirst]

theorem display_nothingFirstAll :
    ∀ ts : List Ty, m.displayAll (nothingFirstAll ts) = m.displayAll ts
  | [] => by simp only [nothingFirstAll]
  | t :: ts => by
    simp only [nothingFirstAll, displayAll, display_nothingFirst t, display_nothingFirstAll ts]

theorem display_nothingFirstOuter :
    ∀ o : Option Ty, m.displayOuter (nothingFirstOuter o) = m.displayOuter o
  | none => by simp only [nothingFirstOuter]
  | some t => by simp only [nothingFirstOuter, displayOuter, display_nothingFirst t]

end

end Model

/-! ## Types that are shown without parentheses -/

namespace Ty

/-- The type is a union. -/
def isUnion : Ty → Bool
  | union _ => true
  | _ => false

/-- The type is an intersection. -/
def isInter : Ty → Bool
  | inter _ => true
  | _ => false

/-- How tightly the outermost sign of a displayed type binds: a bar least, then an
ampersand, then everything else. -/
def displayLevel : Ty → Nat
  | union cases => if (optionalCases? cases).isSome then 2 else 0
  | inter _ => 1
  | _ => 2

/-- A part of a type without erroneous types, hints, and unions or intersections that have
fewer than two members or are members of their like. -/
def FlatPart : Ty → Prop
  | nominal _ _ _ h => h = none
  | union cases => 2 ≤ cases.length ∧ ∀ c ∈ cases, c.isUnion = false
  | inter bounds => 2 ≤ bounds.length ∧ ∀ b ∈ bounds, b.isInter = false
  | param _ | bottom => True
  | error => False

instance : DecidablePred FlatPart
  | nominal _ _ _ h => inferInstanceAs (Decidable (h = none))
  | union cases => inferInstanceAs (Decidable (2 ≤ cases.length ∧ ∀ c ∈ cases, c.isUnion = false))
  | inter bounds =>
    inferInstanceAs (Decidable (2 ≤ bounds.length ∧ ∀ b ∈ bounds, b.isInter = false))
  | param _ | bottom => .isTrue trivial
  | error => .isFalse id

/-- A part of a type that is shown without parentheses: what a sign stands next to binds
more tightly than the sign, and what is not shown of an optional type is nothing but the
absent value's type. -/
def OpenPart : Ty → Prop
  | nominal _ _ o _ => ∀ q ∈ o, q.displayLevel = 2
  | union cases => ∀ x ∈ optionalCases? cases, x.1.isInter = false ∧ x.2 = Language.nothingTy
  | inter bounds => ∀ b ∈ bounds, b.displayLevel ≠ 0
  | param _ | bottom | error => True

instance : DecidablePred OpenPart
  | nominal _ _ o _ => inferInstanceAs (Decidable (∀ q ∈ o, q.displayLevel = 2))
  | union cases => inferInstanceAs
      (Decidable (∀ x ∈ optionalCases? cases, x.1.isInter = false ∧ x.2 = Language.nothingTy))
  | inter bounds => inferInstanceAs (Decidable (∀ b ∈ bounds, b.displayLevel ≠ 0))
  | param _ | bottom | error => .isTrue trivial

end Ty

/-- What types are named after. -/
inductive Symbol where
  | decl (d : DeclId)
  | param (p : ParamId)
  deriving DecidableEq

/-- What the type is named after. -/
def Ty.symbol? : Ty → Option Symbol
  | nominal d _ _ _ => some (.decl d)
  | param p => some (.param p)
  | _ => none

namespace Model

open Ty Text

variable (m : Model)

def symbolName : Symbol → String
  | .decl d => (m.decl d).name
  | .param p => (m.param p).name

/-- The declarations and type parameters have identifiers for names, none of them that of
the bottom type, and no two of them the same. -/
structure NamesApart (S : Symbol → Prop) : Prop where
  identifier : ∀ x, S x → IsIdentifier (m.symbolName x)
  ne_bottom : ∀ x, S x → m.symbolName x ≠ "Bottom"
  inj : ∀ x y, S x → S y → m.symbolName x = m.symbolName y → x = y

end Model

namespace Ty

/-- The type is flat, and written with the given declarations and type parameters. -/
def Flat (S : Symbol → Prop) (t : Ty) : Prop :=
  t.Every fun c => c.FlatPart ∧ ∀ x ∈ c.symbol?, S x

/-- The type is flat, shown without parentheses, and written with the given declarations
and type parameters. -/
def Open (S : Symbol → Prop) (t : Ty) : Prop :=
  t.Every fun c => c.FlatPart ∧ c.OpenPart ∧ ∀ x ∈ c.symbol?, S x

variable (S : Symbol → Prop) [DecidablePred S] (t : Ty)

instance : Decidable (t.Flat S) :=
  inferInstanceAs (Decidable (∀ c ∈ t.parts, c.FlatPart ∧ ∀ x ∈ c.symbol?, S x))

instance : Decidable (t.Open S) :=
  inferInstanceAs (Decidable (∀ c ∈ t.parts, c.FlatPart ∧ c.OpenPart ∧ ∀ x ∈ c.symbol?, S x))

end Ty

/-! ## Displays backwards -/

namespace Model

open Ty Text

variable (m : Model)

/-- A displayed type, read from its end. -/
def backwards (t : Ty) : List Char := (m.display t).toList.reverse

/-- Displayed arguments with their brackets, read from the end. -/
def argsBackwards (as : List Ty) : List Char :=
  if as.isEmpty then []
  else '>' :: ([' ', ','].intercalate (as.reverse.map m.backwards) ++ ['<'])

/-- A displayed qualifying type with the point after it, read from the end. -/
def outerBackwards : Option Ty → List Char
  | none => []
  | some q => '.' :: m.backwards q

theorem reverse_toList_intercalate (sep : String) (ts : List Ty) :
    (sep.intercalate (ts.map m.display)).toList.reverse =
      sep.toList.reverse.intercalate (ts.reverse.map m.backwards) := by
  rw [String.toList_intercalate, reverse_intercalate, ← List.map_reverse, List.map_map,
    ← List.map_reverse, List.map_map]
  rfl

/-- Arguments, name and qualifying type of a type that is displayed by a name. -/
def named? : Ty → Option (List Ty × String × Option Ty)
  | .nominal d as o _ => some (as, (m.decl d).name, o)
  | .param p => some ([], (m.param p).name, none)
  | .bottom => some ([], "Bottom", none)
  | .union _ | .inter _ | .error => none

theorem backwards_of_named {t : Ty} {as : List Ty} {name : String} {o : Option Ty}
    (h : m.named? t = some (as, name, o)) :
    m.backwards t = m.argsBackwards as ++ (name.toList.reverse ++ m.outerBackwards o) := by
  cases t with
  | nominal d as o hint =>
    cases h
    have houter : (m.displayOuter o).toList.reverse = m.outerBackwards o := by
      cases o <;> simp [displayOuter, outerBackwards, backwards]
    have hargs : (if as.isEmpty then "" else "<" ++ ", ".intercalate (m.displayAll as)
        ++ ">").toList.reverse = m.argsBackwards as := by
      have hlist := m.reverse_toList_intercalate ", " as
      rw [argsBackwards, displayAll_eq_map]
      split
      · rfl
      · simp only [String.toList_append, List.reverse_append, hlist]
        rfl
    rw [backwards, display, String.toList_append, String.toList_append, List.reverse_append,
      List.reverse_append, houter, hargs]
  | param p | bottom =>
    cases h
    simp [backwards, display, argsBackwards, outerBackwards]
  | union _ | inter _ | error => contradiction

theorem backwards_union_of_some {cases : List Ty} {shown absent : Ty}
    (h : optionalCases? cases = some (shown, absent)) :
    m.backwards (.union cases) = '?' :: m.backwards shown := by
  simp [backwards, display_union_of_some m h]

theorem backwards_union_of_none {cases : List Ty} (h : optionalCases? cases = none) :
    m.backwards (.union cases) = ['|'].intercalate (cases.reverse.map m.backwards) := by
  rw [backwards, display_union_of_none m h, reverse_toList_intercalate]
  rfl

theorem backwards_inter (bounds : List Ty) :
    m.backwards (.inter bounds) = ['&'].intercalate (bounds.reverse.map m.backwards) := by
  rw [backwards, display_inter, reverse_toList_intercalate]
  rfl

/-! ## Reading backwards -/

/-- A character before a type that would belong to it, if the type's outermost sign binds
as tightly as the level says. -/
def extends? (level : Nat) (c : Char) : Bool :=
  isDottedChar c || (decide (level ≤ 1) && c == '&') || (decide (level = 0) && c == '|')

/-- Backwards, a type whose outermost sign binds as tightly as the level says, and what
stands before the type, are determined, if both have fewer than the given number of
characters. -/
def ReadsBackwards (S : Symbol → Prop) (level n : Nat) : Prop :=
  ReadsMembers m.backwards nothingFirst (fun t => t.Open S ∧ level ≤ t.displayLevel)
    (StopsAt (extends? level)) n

variable {m} {S : Symbol → Prop} {n : Nat}

/-! ### Names -/

/-- The name that a type is displayed by is that of what the type is named after, or of the
bottom type. -/
theorem named?_cases {t : Ty} {as : List Ty} {name : String} {o : Option Ty}
    (h : m.named? t = some (as, name, o)) :
    (∃ x, t.symbol? = some x ∧ name = m.symbolName x) ∨ t = .bottom ∧ name = "Bottom" := by
  cases t with
  | nominal d _ _ _ =>
    cases h
    exact .inl ⟨.decl d, rfl, rfl⟩
  | param p =>
    cases h
    exact .inl ⟨.param p, rfl, rfl⟩
  | bottom =>
    cases h
    exact .inr ⟨rfl, rfl⟩
  | union _ | inter _ | error => contradiction

theorem isIdentifier_of_named {t : Ty} {as : List Ty} {name : String} {o : Option Ty}
    (hS : m.NamesApart S) (ht : t.Open S) (h : m.named? t = some (as, name, o)) :
    IsIdentifier name := by
  rcases named?_cases h with ⟨x, hx, rfl⟩ | ⟨-, rfl⟩
  · exact hS.identifier x ((Every.self ht).2.2 x hx)
  · decide

/-- A type that is displayed by a name is determined by its arguments, its name and its
qualifying type. -/
theorem nothingFirst_eq_of_named {t t' : Ty} {as as' : List Ty} {name : String} {o o' : Option Ty}
    (hS : m.NamesApart S) (ht : t.Open S) (ht' : t'.Open S)
    (h : m.named? t = some (as, name, o)) (h' : m.named? t' = some (as', name, o'))
    (hargs : as.map nothingFirst = as'.map nothingFirst)
    (houter : o.map nothingFirst = o'.map nothingFirst) : t.nothingFirst = t'.nothingFirst := by
  rcases named?_cases h with ⟨x, hx, hname⟩ | ⟨rfl, hname⟩ <;>
    rcases named?_cases h' with ⟨x', hx', hname'⟩ | ⟨rfl, hname'⟩
  · obtain rfl := hS.inj x x' ((Every.self ht).2.2 x hx) ((Every.self ht').2.2 x' hx')
      (hname.symm.trans hname')
    cases t with
    | nominal d as o hint =>
      cases hx
      cases t' with
      | nominal d' as' o' hint' =>
        cases hx'
        cases h
        cases h'
        have hhint : hint = none := (Every.self ht).1
        have hhint' : hint' = none := (Every.self ht').1
        rw [nothingFirst, nothingFirst, nothingFirstAll_eq_map, nothingFirstAll_eq_map,
          nothingFirstOuter_eq_map, nothingFirstOuter_eq_map, hargs, houter, hhint, hhint']
      | _ => cases hx'
    | param p =>
      cases hx
      cases t' with
      | param p' =>
        cases hx'
        rfl
      | _ => cases hx'
    | _ => cases hx
  · exact absurd (hname.symm.trans hname') (hS.ne_bottom x ((Every.self ht).2.2 x hx))
  · exact absurd (hname'.symm.trans hname) (hS.ne_bottom x' ((Every.self ht').2.2 x' hx'))
  · rfl

/-- Arguments and a qualifying type of a type that is displayed by a name. -/
theorem open_of_named {t : Ty} {as : List Ty} {name : String} {o : Option Ty}
    (ht : t.Open S) (h : m.named? t = some (as, name, o)) :
    (∀ a ∈ as, a.Open S) ∧ ∀ q ∈ o, q.Open S ∧ q.displayLevel = 2 := by
  cases t with
  | nominal d _ _ hint =>
    cases h
    obtain ⟨hself, hargs, houter⟩ := every_nominal.mp ht
    exact ⟨hargs, fun q hq => ⟨houter q hq, hself.2.1 q hq⟩⟩
  | param p | bottom =>
    cases h
    exact ⟨fun a ha => absurd ha List.not_mem_nil, fun q hq => by cases hq⟩
  | union _ | inter _ | error => contradiction

/-- Before a qualifying type or a name nothing stands that belongs to a word. -/
theorem stopsAt_outerBackwards {r : List Char} (hr : StopsAt (extends? 2) r) (o : Option Ty) :
    StopsAt isWordChar (m.outerBackwards o ++ r) := by
  cases o with
  | none =>
    intro c hc
    have hstop := hr c hc
    simp only [extends?, isDottedChar, Bool.or_eq_false_iff] at hstop
    exact hstop.1.1.1
  | some q => exact stopsAt_cons.mpr (by decide)

theorem outerBackwards_append_inj (hread : m.ReadsBackwards S 2 n) {o o' : Option Ty}
    {r r' : List Char} (ho : ∀ q ∈ o, q.Open S ∧ q.displayLevel = 2)
    (ho' : ∀ q ∈ o', q.Open S ∧ q.displayLevel = 2)
    (hlen : (m.outerBackwards o ++ r).length < n + 1) (hr : StopsAt (extends? 2) r)
    (hr' : StopsAt (extends? 2) r')
    (h : m.outerBackwards o ++ r = m.outerBackwards o' ++ r') :
    o.map nothingFirst = o'.map nothingFirst ∧ r = r' := by
  have hpoint : ∀ {q : Ty} {s s' : List Char}, StopsAt (extends? 2) s →
      s ≠ m.outerBackwards (some q) ++ s' := by
    rintro q s s' hs rfl
    exact absurd (stopsAt_cons.mp hs) (by decide)
  cases o with
  | none =>
    cases o' with
    | none => exact ⟨rfl, h⟩
    | some q' => exact absurd h (hpoint hr)
  | some q =>
    cases o' with
    | none => exact absurd h.symm (hpoint hr')
    | some q' =>
      obtain ⟨hq, hlevel⟩ := ho q rfl
      obtain ⟨hq', hlevel'⟩ := ho' q' rfl
      obtain ⟨hsame, hend⟩ := hread ⟨hq, Nat.le_of_eq hlevel.symm⟩
        ⟨hq', Nat.le_of_eq hlevel'.symm⟩ (Nat.lt_of_succ_lt_succ hlen) hr hr' (List.cons.inj h).2
      exact ⟨congrArg some hsame, hend⟩

/-- An identifier ends with a character of a word. -/
theorem reverse_append_ne_cons {name : String} (hname : IsIdentifier name) {c : Char}
    (hc : isWordChar c = false) (r s : List Char) : name.toList.reverse ++ r ≠ c :: s := by
  intro h
  cases hcons : name.toList.reverse with
  | nil => exact hname.1 (List.reverse_eq_nil_iff.mp hcons)
  | cons c' cs =>
    rw [hcons] at h
    have hword := hname.2.1 c' (List.mem_reverse.mp (hcons ▸ List.mem_cons_self))
    rw [(List.cons.inj h).1, hc] at hword
    contradiction

theorem argsBackwards_cons_append (a : Ty) (as : List Ty) (s : List Char) :
    m.argsBackwards (a :: as) ++ s =
      '>' :: ([' ', ','].intercalate ((a :: as).reverse.map m.backwards) ++ '<' :: s) := by
  simp [argsBackwards]

/-- Arguments in their brackets and what stands before them are determined. -/
theorem argsBackwards_append_inj (hread : m.ReadsBackwards S 0 n) {as as' : List Ty}
    {name name' : String} {r r' : List Char} (has : ∀ a ∈ as, a.Open S)
    (has' : ∀ a ∈ as', a.Open S) (hname : IsIdentifier name) (hname' : IsIdentifier name')
    (hlen : (m.argsBackwards as ++ (name.toList.reverse ++ r)).length < n + 1)
    (h : m.argsBackwards as ++ (name.toList.reverse ++ r) =
      m.argsBackwards as' ++ (name'.toList.reverse ++ r')) :
    as.map nothingFirst = as'.map nothingFirst ∧
      name.toList.reverse ++ r = name'.toList.reverse ++ r' := by
  have hends : ∀ s, EndsList (StopsAt (extends? 0)) [' ', ','] ('<' :: s) := fun s =>
    ⟨stopsAt_cons.mpr (by decide), fun s' hs => absurd (List.cons.inj hs).1 (by decide)⟩
  cases as with
  | nil =>
    cases as' with
    | nil => exact ⟨rfl, h⟩
    | cons a' as' =>
      rw [argsBackwards_cons_append] at h
      exact absurd h (reverse_append_ne_cons hname (by decide) _ _)
  | cons a as =>
    cases as' with
    | nil =>
      rw [argsBackwards_cons_append] at h
      exact absurd h.symm (reverse_append_ne_cons hname' (by decide) _ _)
    | cons a' as' =>
      rw [argsBackwards_cons_append] at hlen
      rw [argsBackwards_cons_append, argsBackwards_cons_append] at h
      obtain ⟨hargs, hend⟩ := list_append_inj hread (fun _ => stopsAt_cons.mpr (by decide))
        (hends _) (hends _) (by simp) (by simp)
        (fun x hx => ⟨has x (List.mem_reverse.mp hx), Nat.zero_le _⟩)
        (fun x hx => ⟨has' x (List.mem_reverse.mp hx), Nat.zero_le _⟩)
        (Nat.lt_of_succ_lt_succ hlen) (List.cons.inj h).2
      rw [List.map_reverse, List.map_reverse, List.reverse_inj] at hargs
      exact ⟨hargs, (List.cons.inj hend).2⟩

/-- A type that is displayed by a name, and what stands before it, are determined. -/
theorem named_append_inj (hS : m.NamesApart S) (hread : m.ReadsBackwards S 0 n)
    (hread' : m.ReadsBackwards S 2 n) {t t' : Ty} {as as' : List Ty} {name name' : String}
    {o o' : Option Ty} {r r' : List Char} (ht : t.Open S) (ht' : t'.Open S)
    (h : m.named? t = some (as, name, o)) (h' : m.named? t' = some (as', name', o'))
    (hlen : (m.backwards t ++ r).length < n + 1) (hr : StopsAt (extends? 2) r)
    (hr' : StopsAt (extends? 2) r') (heq : m.backwards t ++ r = m.backwards t' ++ r') :
    t.nothingFirst = t'.nothingFirst ∧ r = r' := by
  obtain ⟨has, ho⟩ := open_of_named ht h
  obtain ⟨has', ho'⟩ := open_of_named ht' h'
  have hname := isIdentifier_of_named hS ht h
  have hname' := isIdentifier_of_named hS ht' h'
  rw [m.backwards_of_named h, List.append_assoc, List.append_assoc] at hlen heq
  rw [m.backwards_of_named h', List.append_assoc, List.append_assoc] at heq
  obtain ⟨hargs, hrest⟩ := argsBackwards_append_inj hread has has' hname hname' hlen heq
  have hword : ∀ {w : String}, IsIdentifier w → ∀ c ∈ w.toList.reverse, isWordChar c = true :=
    fun hw c hc => hw.2.1 c (List.mem_reverse.mp hc)
  obtain ⟨hsame, houter⟩ := run_append_inj (hword hname) (hword hname')
    (stopsAt_outerBackwards hr o) (stopsAt_outerBackwards hr' o') hrest
  obtain rfl : name = name' := String.toList_inj.mp (List.reverse_inj.mp hsame)
  rw [List.length_append, List.length_append] at hlen
  obtain ⟨hqualified, rfl⟩ := outerBackwards_append_inj hread' ho ho' (by omega) hr hr' houter
  exact ⟨nothingFirst_eq_of_named hS ht ht' h h' hargs hqualified, rfl⟩

/-! ### Optional types -/

/-- A type whose outermost sign binds most tightly has a name or is optional. -/
theorem named_or_optional {t : Ty} (ht : t.Open S) (hlevel : 2 ≤ t.displayLevel) :
    (∃ x, m.named? t = some x) ∨
      ∃ cases shown absent, t = .union cases ∧ optionalCases? cases = some (shown, absent) := by
  cases t with
  | nominal d as o h => exact .inl ⟨_, rfl⟩
  | param p => exact .inl ⟨_, rfl⟩
  | bottom => exact .inl ⟨_, rfl⟩
  | error => exact (Every.self ht).1.elim
  | inter bounds => exact absurd hlevel (by simp [displayLevel])
  | union cases =>
    cases hoptional : optionalCases? cases with
    | some found => exact .inr ⟨cases, found.1, found.2, rfl, hoptional⟩
    | none => exact absurd hlevel (by simp [displayLevel, hoptional])

/-- The shown case of an optional type is displayed without a sign, and the other one is
the absent value's type. -/
theorem open_of_optional {cases : List Ty} {shown absent : Ty} (ht : (Ty.union cases).Open S)
    (h : optionalCases? cases = some (shown, absent)) :
    shown.Open S ∧ 2 ≤ shown.displayLevel ∧ absent = Language.nothingTy := by
  obtain ⟨⟨⟨-, hflat⟩, hopen, -⟩, hcases⟩ := every_union.mp ht
  obtain ⟨hmem, -⟩ := mem_of_optionalCases? h
  obtain ⟨hinter, habsent⟩ := hopen _ h
  refine ⟨hcases shown hmem, ?_, habsent⟩
  have hunion := hflat shown hmem
  cases shown with
  | union _ | inter _ => contradiction
  | _ => simp [displayLevel]

/-- No name ends with a question mark. -/
theorem named_append_ne_optional (hS : m.NamesApart S) {t : Ty} {x : List Ty × String × Option Ty}
    {r s : List Char} (ht : t.Open S) (h : m.named? t = some x) :
    m.backwards t ++ r ≠ '?' :: s := by
  obtain ⟨as, name, o⟩ := x
  rw [m.backwards_of_named h, List.append_assoc, List.append_assoc]
  cases as with
  | cons a as =>
    rw [argsBackwards_cons_append]
    exact fun heq => absurd (List.cons.inj heq).1 (by decide)
  | nil => exact reverse_append_ne_cons (isIdentifier_of_named hS ht h) (by decide) _ _

/-- A type without an ampersand or a bar, and what stands before it, are determined. -/
theorem ReadsBackwards.single (hS : m.NamesApart S) (hread : m.ReadsBackwards S 0 n)
    (hread' : m.ReadsBackwards S 2 n) : m.ReadsBackwards S 2 (n + 1) := by
  rintro t t' r r' ⟨ht, hlevel⟩ ⟨ht', hlevel'⟩ hlen hr hr' h
  rcases named_or_optional (m := m) ht hlevel with ⟨x, hx⟩ | ⟨cases, shown, absent, rfl, hc⟩ <;>
    rcases named_or_optional (m := m) ht' hlevel' with
      ⟨x', hx'⟩ | ⟨cases', shown', absent', rfl, hc'⟩
  · exact named_append_inj hS hread hread' ht ht' hx hx' hlen hr hr' h
  · rw [m.backwards_union_of_some hc'] at h
    exact absurd h (named_append_ne_optional hS ht hx)
  · rw [m.backwards_union_of_some hc] at h
    exact absurd h.symm (named_append_ne_optional hS ht' hx')
  · obtain ⟨hshown, hbinds, rfl⟩ := open_of_optional ht hc
    obtain ⟨hshown', hbinds', rfl⟩ := open_of_optional ht' hc'
    rw [m.backwards_union_of_some hc] at hlen h
    rw [m.backwards_union_of_some hc'] at h
    obtain ⟨hsame, hend⟩ := hread' ⟨hshown, hbinds⟩ ⟨hshown', hbinds'⟩
      (Nat.lt_of_succ_lt_succ hlen) hr hr' (List.cons.inj h).2
    rw [nothingFirst_union_of_some hc, nothingFirst_union_of_some hc', hsame]
    exact ⟨rfl, hend⟩

/-! ### Intersections and unions -/

/-- What stands before a type, and before what binds less tightly, belongs to neither. -/
theorem stopsAt_extends?_of_le {level level' : Nat} {r : List Char} (hle : level ≤ level')
    (hr : StopsAt (extends? level) r) : StopsAt (extends? level') r := by
  intro c hc
  have hstop := hr c hc
  simp only [extends?, Bool.or_eq_false_iff, Bool.and_eq_false_iff, decide_eq_false_iff_not]
    at hstop ⊢
  exact ⟨⟨hstop.1.1, hstop.1.2.imp_left (by omega)⟩, hstop.2.imp_left (by omega)⟩

/-- The type binds as tightly as the level above, or it is displayed as a list of types that
do, with a sign between them, and joins them. -/
def JoinsAt (m : Model) (S : Symbol → Prop) (level : Nat) (sign : Char) (join : List Ty → Ty)
    (members : Ty → List Ty) (t : Ty) : Prop :=
  level + 1 ≤ t.displayLevel ∧ members t = [t] ∨
    2 ≤ (members t).length ∧ (∀ u ∈ members t, u.Open S ∧ level + 1 ≤ u.displayLevel) ∧
      m.backwards t = [sign].intercalate ((members t).reverse.map m.backwards) ∧
        t.nothingFirst = join ((members t).map nothingFirst)

section

variable {level : Nat} {sign : Char} {join : List Ty → Ty} {members : Ty → List Ty} {t t' : Ty}

theorem JoinsAt.backwards_eq (h : m.JoinsAt S level sign join members t) :
    m.backwards t = [sign].intercalate ((members t).reverse.map m.backwards) := by
  rcases h with ⟨-, hsole⟩ | ⟨-, -, hchars, -⟩
  · simp [hsole]
  · exact hchars

theorem JoinsAt.members_ne_nil (h : m.JoinsAt S level sign join members t) : members t ≠ [] := by
  rcases h with ⟨-, hsole⟩ | ⟨hmany, -⟩
  · simp [hsole]
  · exact List.ne_nil_of_length_pos (by omega)

theorem JoinsAt.open_members (h : m.JoinsAt S level sign join members t) (ht : t.Open S) :
    ∀ u ∈ members t, u.Open S ∧ level + 1 ≤ u.displayLevel := by
  rcases h with ⟨hlevel, hsole⟩ | ⟨-, hall, -⟩
  · rw [hsole]
    exact fun u hu => List.mem_singleton.mp hu ▸ ⟨ht, hlevel⟩
  · exact hall

/-- The members determine the type. -/
theorem JoinsAt.nothingFirst_eq (h : m.JoinsAt S level sign join members t)
    (h' : m.JoinsAt S level sign join members t')
    (hsame : (members t).map nothingFirst = (members t').map nothingFirst) :
    t.nothingFirst = t'.nothingFirst := by
  have hlength := congrArg List.length hsame
  rw [List.length_map, List.length_map] at hlength
  rcases h with ⟨-, hsole⟩ | ⟨hmany, -, -, hjoin⟩ <;>
    rcases h' with ⟨-, hsole'⟩ | ⟨hmany', -, -, hjoin'⟩
  · rw [hsole, hsole'] at hsame
    exact (List.cons.inj hsame).1
  · rw [hsole, List.length_singleton] at hlength
    omega
  · rw [hsole', List.length_singleton] at hlength
    omega
  · rw [hjoin, hjoin', hsame]

/-- Where the members of types at one level can be read, so can these types. -/
theorem ReadsBackwards.of_joins (hread : m.ReadsBackwards S (level + 1) n)
    (hjoins : ∀ t : Ty, t.Open S → level ≤ t.displayLevel →
      m.JoinsAt S level sign join members t)
    (hbefore : extends? (level + 1) sign = false) (hsign : extends? level sign = true) :
    m.ReadsBackwards S level n := by
  rintro t t' r r' ⟨ht, hlevel⟩ ⟨ht', hlevel'⟩ hlen hr hr' h
  have hmembers := hjoins t ht hlevel
  have hmembers' := hjoins t' ht' hlevel'
  have hends : ∀ {s : List Char}, StopsAt (extends? level) s →
      EndsList (StopsAt (extends? (level + 1))) [sign] s := by
    intro s hs
    refine ⟨stopsAt_extends?_of_le (Nat.le_succ _) hs, ?_⟩
    rintro s' rfl
    rw [List.singleton_append, stopsAt_cons, hsign] at hs
    contradiction
  rw [hmembers.backwards_eq] at hlen h
  rw [hmembers'.backwards_eq] at h
  obtain ⟨hsame, hend⟩ := list_append_inj hread (fun _ => stopsAt_cons.mpr hbefore) (hends hr)
    (hends hr') (by simpa using hmembers.members_ne_nil)
    (by simpa using hmembers'.members_ne_nil)
    (fun u hu => hmembers.open_members ht u (List.mem_reverse.mp hu))
    (fun u hu => hmembers'.open_members ht' u (List.mem_reverse.mp hu)) hlen h
  rw [List.map_reverse, List.map_reverse, List.reverse_inj] at hsame
  exact ⟨hmembers.nothingFirst_eq hmembers' hsame, hend⟩

end

/-- The types that are joined by ampersands. -/
def bounds : Ty → List Ty
  | .inter bounds => bounds
  | t => [t]

/-- The types that are joined by bars. -/
def cases : Ty → List Ty
  | .union cases => if (optionalCases? cases).isSome then [.union cases] else cases
  | t => [t]

/-- Without an ampersand or a bar, the outermost sign binds most tightly. -/
theorem two_le_displayLevel {t : Ty} (hinter : t.isInter = false) (hbar : t.displayLevel ≠ 0) :
    2 ≤ t.displayLevel := by
  cases t with
  | union cases =>
    cases hoptional : (optionalCases? cases).isSome with
    | true => simp [displayLevel, hoptional]
    | false => exact absurd (by simp [displayLevel, hoptional]) hbar
  | inter _ => contradiction
  | _ => exact Nat.le_refl 2

theorem joinsAt_bounds {t : Ty} (ht : t.Open S) (hlevel : 1 ≤ t.displayLevel) :
    m.JoinsAt S 1 '&' .inter bounds t := by
  cases t with
  | inter bs =>
    obtain ⟨⟨⟨hmany, hflat⟩, hopen, -⟩, hbounds⟩ := every_inter.mp ht
    refine .inr ⟨hmany, fun u hu => ⟨hbounds u hu, ?_⟩, m.backwards_inter bs, ?_⟩
    · exact two_le_displayLevel (hflat u hu) (hopen u hu)
    · rw [nothingFirst, nothingFirstAll_eq_map]
      rfl
  | union _ => exact .inl ⟨two_le_displayLevel rfl (by omega), rfl⟩
  | _ => exact .inl ⟨Nat.le_refl 2, rfl⟩

theorem one_le_displayLevel {t : Ty} (hunion : t.isUnion = false) : 1 ≤ t.displayLevel := by
  cases t with
  | union _ => contradiction
  | inter _ => exact Nat.le_refl 1
  | _ => exact Nat.le_succ 1

theorem joinsAt_cases {t : Ty} (ht : t.Open S) : m.JoinsAt S 0 '|' .union cases t := by
  cases t with
  | union cs =>
    obtain ⟨⟨⟨hmany, hflat⟩, -⟩, hcases⟩ := every_union.mp ht
    cases hoptional : optionalCases? cs with
    | some found =>
      refine .inl ⟨?_, ?_⟩
      · simp [displayLevel, hoptional]
      · simp [cases, hoptional]
    | none =>
      have hmembers : cases (.union cs) = cs := by simp [cases, hoptional]
      rw [JoinsAt, hmembers]
      exact .inr ⟨hmany, fun u hu => ⟨hcases u hu, one_le_displayLevel (hflat u hu)⟩,
        m.backwards_union_of_none hoptional, nothingFirst_union_of_none hoptional⟩
  | _ => exact .inl ⟨one_le_displayLevel rfl, rfl⟩

/-- Types of every level can be read backwards, however long their displays are. -/
theorem readsBackwards (hS : m.NamesApart S) (n : Nat) :
    m.ReadsBackwards S 0 n ∧ m.ReadsBackwards S 2 n := by
  -- Only a name or an optional type takes a character of its own away, so the step goes
  -- through level 2, and from there to the levels below at the same number of characters.
  induction n with
  | zero => exact ⟨fun _ _ _ _ _ _ hlen => absurd hlen (Nat.not_lt_zero _),
      fun _ _ _ _ _ _ hlen => absurd hlen (Nat.not_lt_zero _)⟩
  | succ n ih =>
    have hsingle := ReadsBackwards.single hS ih.1 ih.2
    have hinter : m.ReadsBackwards S 1 (n + 1) :=
      hsingle.of_joins (fun _ => joinsAt_bounds) (by decide) (by decide)
    exact ⟨hinter.of_joins (fun _ ht _ => joinsAt_cases ht) (by decide) (by decide), hsingle⟩

/-! ## Unique readability -/

/-- Types that are shown without parentheses are displayed alike exactly when they are the
same type but for the place of the absent value's type in unions of two cases. -/
theorem display_eq_iff (hS : m.NamesApart S) {s t : Ty} (hs : s.Open S) (ht : t.Open S) :
    m.display s = m.display t ↔ s.nothingFirst = t.nothingFirst := by
  constructor
  · intro h
    have hread := (readsBackwards hS ((m.backwards s ++ []).length + 1)).1
    have hchars : m.backwards s ++ [] = m.backwards t ++ [] := by
      rw [backwards, backwards, h]
    exact (hread ⟨hs, Nat.zero_le _⟩ ⟨ht, Nat.zero_le _⟩ (Nat.lt_succ_self _) (stopsAt_nil _)
      (stopsAt_nil _) hchars).1
  · intro h
    rw [← m.display_nothingFirst s, h, m.display_nothingFirst t]

/-- The declarations of the language module. -/
def languageSymbols : List Symbol := (List.range new.declCount).map fun i => .decl ⟨i⟩

theorem namesApart_language : new.NamesApart (· ∈ languageSymbols) := by
  have hall : ∀ x ∈ languageSymbols, IsIdentifier (new.symbolName x) ∧
      new.symbolName x ≠ "Bottom" ∧
        ∀ y ∈ languageSymbols, new.symbolName x = new.symbolName y → x = y := by
    decide
  exact ⟨fun x hx => (hall x hx).1, fun x hx => (hall x hx).2.1,
    fun x y hx hy => (hall x hx).2.2 y hy⟩

/-- An integer, or a float that is of a union too. -/
def integerOrFloat (cases : List Ty) : Ty :=
  .union [Language.integerTy, .inter [Language.floatTy, .union cases]]

open TreeLowering.Language in
/-- An optional type inside, with the absent value's type first and last. -/
theorem nestedOptional_displayed :
    (integerOrFloat [nothingTy, stringTy]).Open (· ∈ languageSymbols) ∧
      (integerOrFloat [stringTy, nothingTy]).Open (· ∈ languageSymbols) ∧
      (new.display (integerOrFloat [nothingTy, stringTy]) =
          new.display (integerOrFloat [stringTy, nothingTy]) ↔
        (integerOrFloat [nothingTy, stringTy]).nothingFirst =
          (integerOrFloat [stringTy, nothingTy]).nothingFirst) :=
  ⟨by decide, by decide, display_eq_iff namesApart_language (by decide) (by decide)⟩

/-- The types are flat and displayed alike, and differ in more than the place of the absent
value's type. -/
def Confused (m : Model) (S : Symbol → Prop) (s t : Ty) : Prop :=
  s.Flat S ∧ t.Flat S ∧ m.display s = m.display t ∧ s.nothingFirst ≠ t.nothingFirst

open TreeLowering.Language in
/-- A display does not tell how signs are grouped that stand next to each other, nor whether
an absent value's type that is not shown has arguments. -/
theorem groupings_confused :
    new.NamesApart (· ∈ languageSymbols) ∧
      new.Confused (· ∈ languageSymbols) (.inter [.union [integerTy, floatTy], stringTy])
        (.union [integerTy, .inter [floatTy, stringTy]]) ∧
      new.Confused (· ∈ languageSymbols) (.union [nothingTy, .inter [floatTy, stringTy]])
        (.inter [floatTy, .union [nothingTy, stringTy]]) ∧
      new.Confused (· ∈ languageSymbols)
        (.nominal string [] (some (.union [integerTy, floatTy])) none)
        (.union [integerTy, .nominal string [] (some floatTy) none]) ∧
      new.Confused (· ∈ languageSymbols)
        (.nominal string [] (some (.inter [integerTy, floatTy])) none)
        (.inter [integerTy, .nominal string [] (some floatTy) none]) ∧
      new.Confused (· ∈ languageSymbols) (.union [.of nothing [integerTy], stringTy])
        (.union [nothingTy, stringTy]) := by
  refine ⟨namesApart_language, ?_, ?_, ?_, ?_, ?_⟩ <;> unfold Confused <;> decide

end Model

end TreeLowering
