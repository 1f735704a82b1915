import Mathlib.Data.List.Nodup
import TreeLowering.Proofs.Behaviour.TypeTest
import TreeLowering.Proofs.CodeNode
import TreeLowering.Proofs.MalformedTree
import TreeLowering.Proofs.TestedClass
import TreeLowering.Proofs.VariableRead
set_option autoImplicit false

/-!
# Behaviour: what a type test says

A test for a union, an intersection or anything inside them is an expression of
its own, and has a value wherever its binding has one.  Which values are instances
of a class is left to a judge, who also decides the two predicates of the support
library; the value of a test is then what the type says, case by case and bound
by bound.

The code of a test reads its binding and nothing else, and the names that it
binds on the way are numbered one after the other.

A machine knows classes by their names only, and stops at a test against a type
variable.  Where all tested classes have names, it is a judge itself.
-/

namespace TreeLowering.Behaviour

open Lowering (Yields)
open Target (Expr Stmt VarDecl)

/-! ## The values of tests -/

/-- What a test can ask of a value: whether it is an instance of a class, and the
two predicates of the support library. -/
structure Judge where
  isInstance : Value → Target.Ty → Bool
  isIdentifiable : Value → Bool
  isIdentifiableObject : Value → Bool

/-- The value of an operator; a conjunction or an alternative may leave out the
second value. -/
def operateOn : Target.BinaryOp → Option Value → Option Value → Option Value
  | .and, some (.bool false), _ => some (.bool false)
  | .and, some (.bool true), some (.bool b) => some (.bool b)
  | .or, some (.bool true), _ => some (.bool true)
  | .or, some (.bool false), some (.bool b) => some (.bool b)
  | .eq, some v, some w => some (.bool (v.same w))
  | .ne, some v, some w => some (.bool (!v.same w))
  | _, _, _ => none

namespace Judge

variable (judge : Judge)

/-- A static call of a predicate of the support library. -/
def ask (cls : Target.Ty) (method : String) (args : List Value) : Option Value :=
  match args with
  | [v] =>
    if cls ≠ .cls Support.util then none
    else if method = Support.isIdentifiable then some (.bool (judge.isIdentifiable v))
    else if method = Support.isIdentifiableObject then some (.bool (judge.isIdentifiableObject v))
    else none
  | _ => none

mutual

/-- The value of a test, and none for code that no test is made of. -/
@[simp]
def eval : Expr → Locals → Option Value
  | .ident x, ρ => ρ.lookup x
  | .lit l, _ => some (Machine.literal l)
  | .instanceOf e ty, ρ => (eval e ρ).map fun v => .bool (judge.isInstance v ty)
  | .binary op lhs rhs, ρ => operateOn op (eval lhs ρ) (eval rhs ρ)
  | .call (some (.typeRef cls)) _ method args, ρ => (evalAll args ρ).bind (judge.ask cls method)
  | .letIn stmts e, ρ => (runAll stmts ρ).bind (eval e)
  | _, _ => none

/-- The values of the arguments of a predicate. -/
@[simp]
def evalAll : List Expr → Locals → Option (List Value)
  | [], _ => some []
  | e :: es, ρ => (eval e ρ).bind fun v => (evalAll es ρ).map (v :: ·)

/-- The value that a variable is declared with. -/
@[simp]
def evalInit : Option Expr → Locals → Option Value
  | none, _ => none
  | some e, ρ => eval e ρ

/-- The locals after a declaration. -/
@[simp]
def declare : VarDecl → Locals → Option Locals
  | .mk _ x _ init, ρ => (evalInit init ρ).map fun v => (x, v) :: ρ

/-- The locals after a statement of a let-expression. -/
@[simp]
def run : Stmt → Locals → Option Locals
  | .declare d, ρ => declare d ρ
  | _, _ => none

/-- The locals after the statements of a let-expression. -/
@[simp]
def runAll : List Stmt → Locals → Option Locals
  | [], ρ => some ρ
  | s :: ss, ρ => (run s ρ).bind (runAll ss)

end

/-! ## What types say -/

/-- The types whose tests name no class. -/
def classFree : List Ty :=
  [Language.voidTy, Language.nothingTy, Language.objectTy, Language.identifiableTy,
    Language.identifiableObjectTy]

/-- What a type that is no union, intersection or bottom type says of a value. -/
def leafHolds (env : Env) (v : Value) (t : Ty) : Bool :=
  if t.withoutHint = Language.voidTy then true
  else if t.withoutHint = Language.nothingTy then v.isAbsent
  else if t.withoutHint = Language.objectTy then !v.isAbsent
  else if t.withoutHint = Language.identifiableTy then judge.isIdentifiable v
  else if t.withoutHint = Language.identifiableObjectTy then judge.isIdentifiableObject v
  else judge.isInstance v (env.testedClass t)

mutual

/-- What a type says of a value: a union that some case does, an intersection
that all bounds do. -/
def holds (env : Env) (v : Value) : Ty → Bool
  | .union cases => anyHolds env v cases
  | .inter bounds => allHold env v bounds
  | .bottom => false
  | .nominal d as o h => judge.leafHolds env v (.nominal d as o h)
  | .param p => judge.leafHolds env v (.param p)
  | .error => judge.leafHolds env v .error

/-- What some type of a list says. -/
def anyHolds (env : Env) (v : Value) : List Ty → Bool
  | [] => false
  | t :: ts => holds env v t || anyHolds env v ts

/-- What all types of a list say. -/
def allHold (env : Env) (v : Value) : List Ty → Bool
  | [] => true
  | t :: ts => holds env v t && allHold env v ts

end

section Leaf

variable {judge} {env : Env} {v : Value} {t : Ty}

theorem leafHolds_void (h : t.withoutHint = Language.voidTy) : judge.leafHolds env v t = true :=
  if_pos h

theorem leafHolds_nothing (h : t.withoutHint = Language.nothingTy) :
    judge.leafHolds env v t = v.isAbsent := by
  rw [leafHolds, h]
  rfl

theorem leafHolds_object (h : t.withoutHint = Language.objectTy) :
    judge.leafHolds env v t = !v.isAbsent := by
  rw [leafHolds, h]
  rfl

theorem leafHolds_identifiable (h : t.withoutHint = Language.identifiableTy) :
    judge.leafHolds env v t = judge.isIdentifiable v := by
  rw [leafHolds, h]
  rfl

theorem leafHolds_identifiableObject (h : t.withoutHint = Language.identifiableObjectTy) :
    judge.leafHolds env v t = judge.isIdentifiableObject v := by
  rw [leafHolds, h]
  rfl

theorem leafHolds_instance (h : t.withoutHint ∉ classFree) :
    judge.leafHolds env v t = judge.isInstance v (env.testedClass t) := by
  simp only [classFree, List.mem_cons, List.not_mem_nil, or_false, not_or] at h
  obtain ⟨hvoid, hnothing, hobject, hidentifiable, hobjects⟩ := h
  rw [leafHolds, if_neg hvoid, if_neg hnothing, if_neg hobject, if_neg hidentifiable,
    if_neg hobjects]

end Leaf

theorem anyHolds_eq_any (env : Env) (v : Value) (ts : List Ty) :
    judge.anyHolds env v ts = ts.any (judge.holds env v) := by
  induction ts with
  | nil => rfl
  | cons t ts ih => simp [anyHolds, ih]

theorem allHold_eq_all (env : Env) (v : Value) (ts : List Ty) :
    judge.allHold env v ts = ts.all (judge.holds env v) := by
  induction ts with
  | nil => rfl
  | cons t ts ih => simp [allHold, ih]

end Judge

/-! ## The code of a test -/

variable {env : Env} {raw : String} {t : Ty} {ts : List Ty} {n k l : Nat} {code : Expr}
  {codes : List Expr} {s s' : LowerState}

/-- The classes that a value is tested against for a type that is no union,
intersection or bottom type. -/
def leafClasses (env : Env) (t : Ty) : List Target.Ty :=
  if t.withoutHint ∈ Judge.classFree then [] else [env.testedClass t]

/-- The next `k` temporary names after number `n`. -/
def temporaries (n k : Nat) : List String := (List.range' n k).map (synthetic Support.temporary)

/-- The code says of its binding what the type says, reads nothing else, and binds
the next `k` temporary names after number `n`. -/
structure SaysOf (env : Env) (raw : String) (t : Ty) (n k : Nat) (code : Expr) : Prop where
  value : ∀ (judge : Judge) (ρ : Locals) (v : Value), ρ.lookup raw = some v →
    judge.eval code ρ = some (.bool (judge.holds env v t))
  reads : ∀ r ∈ code.reads, r = (raw, none)
  binds : code.binds = temporaries n k
  tested : code.testedClasses = t.leaves.flatMap (leafClasses env)

/-- The codes say of their binding what the types say, one by one. -/
structure SayOf (env : Env) (raw : String) (ts : List Ty) (n k : Nat) (codes : List Expr) :
    Prop where
  values : ∀ (judge : Judge) (ρ : Locals) (v : Value), ρ.lookup raw = some v →
    codes.map (judge.eval · ρ) = ts.map fun t => some (.bool (judge.holds env v t))
  reads : ∀ r ∈ Target.exprsRead codes, r = (raw, none)
  binds : (Target.exprsNodes codes).flatMap Target.Node.bound = temporaries n k
  tested : (Target.exprsNodes codes).flatMap Target.Node.tested =
    (Ty.leavesAll ts).flatMap (leafClasses env)

theorem temporaries_append (n k l : Nat) :
    temporaries n k ++ temporaries (n + k) l = temporaries n (k + l) := by
  rw [temporaries, temporaries, temporaries, ← List.map_append, List.range'_append_1]

theorem temporaries_nodup (n k : Nat) : (temporaries n k).Nodup :=
  List.Nodup.map (fun _ _ h => synthetic_number_inj h) List.nodup_range'

/-! ## Numbers that are drawn -/

/-- From every state the computation has a result, which satisfies `P` for the
number that is next at the start and the count of numbers that are drawn. -/
def Draws {α : Type} (P : Nat → Nat → α → Prop) (x : Lowering α) : Prop :=
  ∀ s, ∃ k a s', Yields x s a s' ∧ s'.names.next = s.names.next + k ∧ P s.names.next k a

namespace Draws

variable {α β : Type} {P : Nat → Nat → α → Prop} {Q R : Nat → Nat → β → Prop}

theorem pure {a : α} (h : ∀ n, P n 0 a) : Draws P (Pure.pure a) :=
  fun s => ⟨0, a, s, rfl, rfl, h _⟩

theorem bind {x : Lowering α} {f : α → Lowering β} (hx : Draws P x)
    (hf : ∀ n k a, P n k a → Draws (fun n' l b => n' = n + k → R n (k + l) b) (f a)) :
    Draws R (x >>= f) := by
  intro s
  obtain ⟨k, a, t, ha, hk, hP⟩ := hx s
  obtain ⟨l, b, u, hb, hl, hR⟩ := hf _ k a hP t
  exact ⟨k + l, b, u, Lowering.yields_bind.mpr ⟨a, t, ha, hb⟩, by omega, hR hk⟩

theorem fresh (base : String) :
    Draws (fun n k name => k = 1 ∧ name = synthetic base n) (Lowering.fresh base) :=
  fun _ => ⟨1, _, _, rfl, rfl, rfl, rfl⟩

theorem names_addNotes (s : LowerState) (notes : List Note) :
    (s.addNotes notes).names = s.names := by
  induction notes generalizing s with
  | nil => rfl
  | cons note notes ih =>
    have hnote : (s.addNote note).names = s.names := by cases note <;> rfl
    exact (ih (s.addNote note)).trans hnote

theorem ofType {x : TypeLowering α} {a : α} (h : x.answer? = some a) :
    Draws (fun _ k b => k = 0 ∧ b = a) (liftM x : Lowering α) := by
  intro s
  obtain ⟨s', hs'⟩ := Lowering.exists_yields_of_answer h s
  obtain ⟨notes, _, rfl⟩ := Lowering.yields_ofType.mp hs'
  exact ⟨0, a, _, hs', by rw [names_addNotes, Nat.add_zero], rfl, rfl⟩

end Draws

/-! ## Leaves -/

/-- A test that binds nothing. -/
theorem SaysOf.unbound
    (hvalue : ∀ (judge : Judge) (ρ : Locals) (v : Value), ρ.lookup raw = some v →
      judge.eval code ρ = some (.bool (judge.holds env v t)))
    (hreads : code.reads = [(raw, none)]) (hbinds : code.binds = [])
    (htested : code.testedClasses = t.leaves.flatMap (leafClasses env)) (n : Nat) :
    SaysOf env raw t n 0 code :=
  ⟨hvalue, by simp [hreads], hbinds, htested⟩

section

variable (hleaf : t.leaves = [t])
  (hholds : ∀ (judge : Judge) v, judge.holds env v t = judge.leafHolds env v t) (raw : String)

include hleaf hholds

theorem voidTest_draws (hvoid : t.withoutHint = Language.voidTy) :
    Draws (SaysOf env raw t) (do
      let tmp ← Lowering.fresh Support.temporary
      pure (.letIn [.declareFinal tmp .object (.ident raw)] (.bool true))) := by
  refine (Draws.fresh _).bind fun n k tmp hfresh => .pure fun n' hn => ?_
  obtain ⟨rfl, rfl⟩ := hfresh
  subst hn
  refine ⟨fun judge ρ v hv => ?_, ?_, ?_, ?_⟩
  · simp [hholds, Judge.leafHolds_void hvoid, Stmt.declareFinal, Expr.bool, hv, Machine.literal]
  · simp [Stmt.declareFinal, Expr.bool]
  · simp [Stmt.declareFinal, Expr.bool, Expr.binds, Target.Node.bound, temporaries]
  · simp [Stmt.declareFinal, Expr.bool, hleaf, leafClasses, Judge.classFree, hvoid,
      Expr.testedClasses, Target.Node.tested]

theorem leafTest_draws : Draws (SaysOf env raw t) (env.leafTest raw t) := by
  unfold Env.leafTest
  dsimp only
  by_cases hvoid : t.withoutHint = Language.voidTy
  · simp only [if_pos hvoid]
    exact voidTest_draws hleaf hholds raw hvoid
  simp only [if_neg hvoid]
  by_cases hnothing : t.withoutHint = Language.nothingTy
  · simp only [if_pos hnothing]
    refine .pure (.unbound (fun judge ρ v hv => ?_) rfl rfl ?_)
    · simp [hholds, Judge.leafHolds_nothing hnothing, hv, Expr.null, Machine.literal, operateOn,
        Value.same_absent]
    · simp [hleaf, leafClasses, Judge.classFree, hnothing, Expr.testedClasses,
        Target.Node.tested, Expr.null]
  simp only [if_neg hnothing]
  by_cases hobject : t.withoutHint = Language.objectTy
  · simp only [if_pos hobject]
    refine .pure (.unbound (fun judge ρ v hv => ?_) rfl rfl ?_)
    · simp [hholds, Judge.leafHolds_object hobject, hv, Expr.null, Machine.literal, operateOn,
        Value.same_absent]
    · simp [hleaf, leafClasses, Judge.classFree, hobject, Expr.testedClasses,
        Target.Node.tested, Expr.null]
  simp only [if_neg hobject]
  by_cases hidentifiable : t.withoutHint = Language.identifiableTy
  · simp only [if_pos hidentifiable]
    refine .pure (.unbound (fun judge ρ v hv => ?_) rfl rfl ?_)
    · simp [hholds, Judge.leafHolds_identifiable hidentifiable, hv, Expr.static, Expr.callStatic,
        Judge.ask]
    · simp [hleaf, leafClasses, Judge.classFree, hidentifiable, Expr.testedClasses,
        Target.Node.tested, Expr.static, Expr.callStatic]
  simp only [if_neg hidentifiable]
  by_cases hobjects : t.withoutHint = Language.identifiableObjectTy
  · simp only [if_pos hobjects]
    refine .pure (.unbound (fun judge ρ v hv => ?_) rfl rfl ?_)
    · simp [hholds, Judge.leafHolds_identifiableObject hobjects, hv, Expr.static,
        Expr.callStatic, Judge.ask, Support.isIdentifiable, Support.isIdentifiableObject]
    · simp [hleaf, leafClasses, Judge.classFree, hobjects, Expr.testedClasses,
        Target.Node.tested, Expr.static, Expr.callStatic]
  simp only [if_neg hobjects]
  -- no case is left in which a class is not named
  have hnamed : t.withoutHint ∉ Judge.classFree := by
    simp [Judge.classFree, hvoid, hnothing, hobject, hidentifiable, hobjects]
  refine (Draws.ofType (env.answer?_testedClass t)).bind fun n k cls hfound => ?_
  obtain ⟨rfl, rfl⟩ := hfound
  refine .pure fun n' _ => .unbound (fun judge ρ v hv => ?_) rfl rfl ?_ n
  · simp [hholds, Judge.leafHolds_instance hnamed, hv]
  · simp [hleaf, leafClasses, hnamed, Expr.testedClasses, Target.Node.tested]

end

/-! ## Composites -/

theorem operateOn_or (a b : Bool) :
    operateOn .or (some (.bool a)) (some (.bool b)) = some (.bool (a || b)) := by
  cases a <;> rfl

theorem operateOn_and (a b : Bool) :
    operateOn .and (some (.bool a)) (some (.bool b)) = some (.bool (a && b)) := by
  cases a <;> rfl

/-- An operator that puts truth values together is put between all tests. -/
theorem eval_foldl_binary {op : Target.BinaryOp} {f : Bool → Bool → Bool}
    (hop : ∀ a b, operateOn op (some (.bool a)) (some (.bool b)) = some (.bool (f a b)))
    (judge : Judge) (ρ : Locals) (test : Expr) (tests : List Expr) (a : Bool) (bs : List Bool)
    (htest : judge.eval test ρ = some (.bool a))
    (htests : tests.map (judge.eval · ρ) = bs.map fun b => some (.bool b)) :
    judge.eval (tests.foldl (.binary op) test) ρ = some (.bool (bs.foldl f a)) := by
  -- the operator takes one test after the other into the expression at its left
  induction tests generalizing test a bs with
  | nil =>
    obtain rfl : bs = [] := by simpa using htests.symm
    exact htest
  | cons next tests ih =>
    cases bs with
    | nil => simp at htests
    | cons b bs =>
      simp only [List.map_cons, List.cons.injEq] at htests
      refine ih (.binary op test next) (f a b) bs ?_ htests.2
      rw [Judge.eval, htest, htests.1, hop]

/-- What is read in tests that are put together is read in one of them. -/
theorem reads_foldl_binary (op : Target.BinaryOp) (test : Expr) (tests : List Expr) :
    (tests.foldl (.binary op) test).reads = Target.exprsRead (test :: tests) := by
  induction tests generalizing test with
  | nil => simp
  | cons next tests ih => simp [ih, List.append_assoc]

/-- Operators have no name or class of their own. -/
theorem nodes_foldl_binary {α : Type} (g : Target.Node → List α)
    (hg : ∀ op lhs rhs, g (.expr (.binary op lhs rhs)) = []) (op : Target.BinaryOp) (test : Expr)
    (tests : List Expr) :
    (tests.foldl (.binary op) test).nodes.flatMap g =
      (Target.exprsNodes (test :: tests)).flatMap g := by
  induction tests generalizing test with
  | nil => simp
  | cons next tests ih => simp [ih, hg, List.append_assoc]

theorem foldl_or (a : Bool) (bs : List Bool) : bs.foldl or a = (a || bs.any id) := by
  induction bs generalizing a with
  | nil => simp
  | cons b bs ih => simp [ih, Bool.or_assoc]

theorem foldl_and (a : Bool) (bs : List Bool) : bs.foldl and a = (a && bs.all id) := by
  induction bs generalizing a with
  | nil => simp
  | cons b bs ih => simp [ih, Bool.and_assoc]

/-- Put together, tests come to what their values do, from the value of no tests
on. -/
theorem eval_combineTests {op : Target.BinaryOp} {f : Bool → Bool → Bool}
    (hop : ∀ a b, operateOn op (some (.bool a)) (some (.bool b)) = some (.bool (f a b)))
    (hunit : ∀ b, f (op == .and) b = b) {judge : Judge} {ρ : Locals} {tests : List Expr}
    {bs : List Bool} (htests : tests.map (judge.eval · ρ) = bs.map fun b => some (.bool b)) :
    judge.eval (Env.combineTests op tests) ρ = some (.bool (bs.foldl f (op == .and))) := by
  cases tests with
  | nil =>
    obtain rfl : bs = [] := by simpa using htests.symm
    rfl
  | cons test tests =>
    cases bs with
    | nil => contradiction
    | cons b bs =>
      simp only [List.map_cons, List.cons.injEq] at htests
      rw [Env.combineTests, List.foldl_cons, hunit]
      exact eval_foldl_binary hop judge ρ test tests b bs htests.1 htests.2

theorem reads_combineTests (op : Target.BinaryOp) (tests : List Expr) :
    (Env.combineTests op tests).reads = Target.exprsRead tests := by
  cases tests with
  | nil => rfl
  | cons test tests => exact reads_foldl_binary op test tests

theorem binds_combineTests (op : Target.BinaryOp) (tests : List Expr) :
    (Env.combineTests op tests).binds = (Target.exprsNodes tests).flatMap Target.Node.bound := by
  cases tests with
  | nil => rfl
  | cons test tests => exact nodes_foldl_binary _ (fun _ _ _ => rfl) op test tests

theorem testedClasses_combineTests (op : Target.BinaryOp) (tests : List Expr) :
    (Env.combineTests op tests).testedClasses =
      (Target.exprsNodes tests).flatMap Target.Node.tested := by
  cases tests with
  | nil => rfl
  | cons test tests => exact nodes_foldl_binary _ (fun _ _ _ => rfl) op test tests

theorem SayOf.union (h : SayOf env raw ts n k codes) :
    SaysOf env raw (.union ts) n k (Env.combineTests .or codes) where
  value judge ρ v hv := by
    have hcodes : codes.map (judge.eval · ρ) =
        (ts.map (judge.holds env v)).map fun b => some (.bool b) := by
      rw [List.map_map]
      exact h.values judge ρ v hv
    rw [eval_combineTests operateOn_or Bool.false_or hcodes, foldl_or, Judge.holds,
      Judge.anyHolds_eq_any, List.any_map]
    rfl
  reads := by rw [reads_combineTests]; exact h.reads
  binds := by rw [binds_combineTests]; exact h.binds
  tested := by rw [testedClasses_combineTests]; exact h.tested

theorem SayOf.inter (h : SayOf env raw ts n k codes) :
    SaysOf env raw (.inter ts) n k (Env.combineTests .and codes) where
  value judge ρ v hv := by
    have hcodes : codes.map (judge.eval · ρ) =
        (ts.map (judge.holds env v)).map fun b => some (.bool b) := by
      rw [List.map_map]
      exact h.values judge ρ v hv
    rw [eval_combineTests operateOn_and Bool.true_and hcodes, foldl_and, Judge.holds,
      Judge.allHold_eq_all, List.all_map]
    rfl
  reads := by rw [reads_combineTests]; exact h.reads
  binds := by rw [binds_combineTests]; exact h.binds
  tested := by rw [testedClasses_combineTests]; exact h.tested

theorem SayOf.nil : SayOf env raw [] n 0 [] := ⟨fun _ _ _ _ => rfl, nofun, rfl, rfl⟩

theorem SayOf.cons (ht : SaysOf env raw t n k code) (hts : SayOf env raw ts (n + k) l codes) :
    SayOf env raw (t :: ts) n (k + l) (code :: codes) where
  values judge ρ v hv := by
    rw [List.map_cons, List.map_cons, ht.value judge ρ v hv, hts.values judge ρ v hv]
  reads r hr := by
    rcases List.mem_append.mp hr with h | h
    · exact ht.reads r h
    · exact hts.reads r h
  binds := by
    have hcode : code.nodes.flatMap Target.Node.bound = temporaries n k := ht.binds
    rw [Target.exprsNodes, List.flatMap_append, hcode, hts.binds, temporaries_append]
  tested := by
    have hcode : code.nodes.flatMap Target.Node.tested = t.leaves.flatMap (leafClasses env) :=
      ht.tested
    rw [Target.exprsNodes, Ty.leavesAll, List.flatMap_append, List.flatMap_append, hcode,
      hts.tested]

/-! ## Every type -/

mutual

theorem typeTest_draws (env : Env) (raw : String) :
    (t : Ty) → Draws (SaysOf env raw t) (env.typeTest raw t)
  | .union cases => (typeTests_draw env raw cases).bind fun _ _ _ h => .pure fun _ _ => h.union
  | .inter bounds => (typeTests_draw env raw bounds).bind fun _ _ _ h => .pure fun _ _ => h.inter
  | .bottom => .pure fun _ => ⟨fun _ _ _ _ => rfl, nofun, rfl, rfl⟩
  | .nominal _ _ _ _ => leafTest_draws rfl (fun _ _ => rfl) raw
  | .param _ => leafTest_draws rfl (fun _ _ => rfl) raw
  | .error => leafTest_draws rfl (fun _ _ => rfl) raw

theorem typeTests_draw (env : Env) (raw : String) :
    (ts : List Ty) → Draws (SayOf env raw ts) (env.typeTests raw ts)
  | [] => .pure fun _ => .nil
  | t :: ts =>
    (typeTest_draws env raw t).bind fun _ _ _ ht =>
      (typeTests_draw env raw ts).bind fun _ _ _ hts => .pure fun _ _ hn => by
        subst hn
        exact .cons ht hts

end

/-! ## The machine as a judge -/

/-- What a machine finds in values. -/
def Machine.judge (machine : Machine) : Judge where
  isInstance v ty := (className? ty).any (machine.isA v)
  isIdentifiable := machine.isIdentifiable
  isIdentifiableObject := machine.isIdentifiableObject

variable {machine : Machine} {v : Value}

theorem leafVerdict_eq (hclasses : ∀ c ∈ leafClasses env t, (className? c).isSome = true) :
    leafVerdict machine env v t = pure (.bool (machine.judge.leafHolds env v t)) := by
  unfold leafVerdict
  by_cases hvoid : t.withoutHint = Language.voidTy
  · rw [if_pos hvoid, Judge.leafHolds_void hvoid]
  rw [if_neg hvoid]
  by_cases hnothing : t.withoutHint = Language.nothingTy
  · rw [if_pos hnothing, Judge.leafHolds_nothing hnothing, combine, Value.same_absent]
  rw [if_neg hnothing]
  by_cases hobject : t.withoutHint = Language.objectTy
  · rw [if_pos hobject, Judge.leafHolds_object hobject, combine, Value.same_absent]
  rw [if_neg hobject]
  by_cases hidentifiable : t.withoutHint = Language.identifiableTy
  · rw [if_pos hidentifiable, Judge.leafHolds_identifiable hidentifiable]
    rfl
  rw [if_neg hidentifiable]
  by_cases hobjects : t.withoutHint = Language.identifiableObjectTy
  · rw [if_pos hobjects, Judge.leafHolds_identifiableObject hobjects]
    rfl
  have hnamed : t.withoutHint ∉ Judge.classFree := by
    simp [Judge.classFree, hvoid, hnothing, hobject, hidentifiable, hobjects]
  rw [if_neg hobjects, env.answer?_testedClass, Judge.leafHolds_instance hnamed]
  have hclass : (className? (env.testedClass t)).isSome = true :=
    hclasses _ (by simp [leafClasses, hnamed])
  obtain ⟨name, hname⟩ := Option.isSome_iff_exists.mp hclass
  simp [Machine.instanceTest, Machine.judge, hname]

theorem foldl_operate {op : Target.BinaryOp} {f : Bool → Bool → Bool}
    (hop : ∀ a b, operate op (pure (.bool a) : Act Value) (pure (.bool b)) = pure (.bool (f a b)))
    (a : Bool) (bs : List Bool) :
    (bs.map fun b => (pure (.bool b) : Act Value)).foldl (operate op) (pure (.bool a)) =
      pure (.bool (bs.foldl f a)) := by
  induction bs generalizing a with
  | nil => rfl
  | cons b bs ih => rw [List.map_cons, List.foldl_cons, hop, ih, List.foldl_cons]

theorem combineVerdicts_eq {op : Target.BinaryOp} {f : Bool → Bool → Bool}
    (hop : ∀ a b, operate op (pure (.bool a) : Act Value) (pure (.bool b)) = pure (.bool (f a b)))
    (hunit : ∀ b, f (op == .and) b = b) (bs : List Bool) :
    combineVerdicts op (bs.map fun b => pure (.bool b)) = pure (.bool (bs.foldl f (op == .and))) := by
  cases bs with
  | nil => rfl
  | cons b bs => rw [List.map_cons, combineVerdicts, foldl_operate hop, List.foldl_cons, hunit]

theorem operate_or (a b : Bool) :
    operate .or (pure (.bool a) : Act Value) (pure (.bool b)) = pure (.bool (a || b)) := by
  cases a <;> rfl

theorem operate_and (a b : Bool) :
    operate .and (pure (.bool a) : Act Value) (pure (.bool b)) = pure (.bool (a && b)) := by
  cases a <;> rfl

mutual

/-- Where every class that is tested has a name, the verdict of a machine is what
the type says. -/
theorem verdict_eq : (t : Ty) →
    (∀ c ∈ t.leaves.flatMap (leafClasses env), (className? c).isSome = true) →
    verdict machine env v t = pure (.bool (machine.judge.holds env v t))
  | .union cases => fun h => by
    rw [verdict, verdicts_eq cases h, combineVerdicts_eq operate_or Bool.false_or, foldl_or,
      Judge.holds, Judge.anyHolds_eq_any, List.any_map]
    rfl
  | .inter bounds => fun h => by
    rw [verdict, verdicts_eq bounds h, combineVerdicts_eq operate_and Bool.true_and, foldl_and,
      Judge.holds, Judge.allHold_eq_all, List.all_map]
    rfl
  | .bottom => fun _ => rfl
  | .nominal d as o h => fun hc => leafVerdict_eq (by simpa [Ty.leaves] using hc)
  | .param p => fun hc => leafVerdict_eq (by simpa [Ty.leaves] using hc)
  | .error => fun hc => leafVerdict_eq (by simpa [Ty.leaves] using hc)

theorem verdicts_eq : (ts : List Ty) →
    (∀ c ∈ (Ty.leavesAll ts).flatMap (leafClasses env), (className? c).isSome = true) →
    verdicts machine env v ts =
      (ts.map (machine.judge.holds env v)).map fun b => pure (.bool b)
  | [] => fun _ => rfl
  | t :: ts => fun h => by
    rw [Ty.leavesAll, List.flatMap_append, List.forall_mem_append] at h
    rw [verdicts, verdict_eq t h.1, verdicts_eq ts h.2]
    rfl

end

/-! ## What tests mean -/

/-- There is a test for every type.  Its value is what the type says of the value
of its binding, it reads the binding alone, and it binds no name twice.  A machine
that knows the tested classes by their names comes to that value too. -/
theorem typeTest_means (env : Env) (raw : String) (t : Ty) (s : LowerState) :
    ∃ code s', Yields (env.typeTest raw t) s code s' ∧
      (∀ (judge : Judge) (ρ : Locals) (v : Value), ρ.lookup raw = some v →
        judge.eval code ρ = some (.bool (judge.holds env v t))) ∧
      (∀ r ∈ code.reads, r = (raw, none)) ∧ code.binds.Nodup ∧
      ∀ machine : Machine, (∀ c ∈ code.testedClasses, (className? c).isSome = true) →
        ∀ (ρ : Locals) (v : Value), ρ.read raw = pure v →
          Does ρ (machine.evalCode code) (pure (.bool (machine.judge.holds env v t))) := by
  obtain ⟨k, code, s', hcode, _, hmeans⟩ := typeTest_draws env raw t s
  refine ⟨code, s', hcode, hmeans.value, hmeans.reads, ?_, fun machine hclasses ρ v hread => ?_⟩
  · rw [hmeans.binds]
    exact temporaries_nodup _ _
  · rw [← verdict_eq t (hmeans.tested ▸ hclasses)]
    exact (typeTest_isTest t).does hcode hread

/-- An absent value is an integer or absent, and void; an intersection without
bounds asks nothing of it. -/
theorem absentValue_means :
    [("x", Value.absent)].lookup "x" = some .absent ∧
    ∃ code s', Yields
        ((Env.of .new .standard).typeTest "x"
          (.inter [.union [Language.integerTy, Language.nothingTy], .inter [], Language.voidTy]))
        (.start .empty) code s' ∧
      Judge.eval ⟨fun _ _ => false, fun _ => false, fun _ => false⟩ code [("x", .absent)] =
        some (.bool true) ∧
      (∀ c ∈ code.testedClasses, (className? c).isSome = true) ∧
      Does [("x", .absent)] (Machine.evalCode ⟨0, fun _ _ => none, fun _ _ => false,
        fun _ => false, fun _ => false⟩ code) (pure (.bool true)) := by
  obtain ⟨code, s', hcode, hvalue, _, _, hmachine⟩ := typeTest_means (.of .new .standard) "x"
    (.inter [.union [Language.integerTy, Language.nothingTy], .inter [], Language.voidTy])
    (.start .empty)
  have hclasses : ∀ c ∈ code.testedClasses, (className? c).isSome = true := by
    obtain ⟨_, code', s'', hcode', _, hmeans⟩ := typeTest_draws (.of .new .standard) "x"
      (.inter [.union [Language.integerTy, Language.nothingTy], .inter [], Language.voidTy])
      (.start .empty)
    cases hcode.symm.trans hcode'
    rw [hmeans.tested]
    decide
  exact ⟨rfl, code, s', hcode, hvalue _ _ .absent rfl, hclasses,
    hmachine _ hclasses _ .absent rfl⟩

end TreeLowering.Behaviour
