import TreeLowering.Proofs.MethodHeader
import TreeLowering.Proofs.Restoration
import TreeLowering.Proofs.SoleMember
import TreeLowering.Lowering.Method
import TreeLowering.Backend
set_option autoImplicit false

/-!
# Proofs: the form in which values arrive

A return and a declaration ask for a value in the form that the values of their
type are kept in.  Where that form is raw, a value that is boxed by nature is
converted, and which conversion there is depends on the value's own type alone.
So the value arrives raw when its own type is one that boxed values are
converted for.  The type of the position itself is one, as far as nothing of it
is hidden, and so is every type below the Boolean type; but a type parameter
below a number is not.
-/

namespace TreeLowering

/-! ## Statements inside of statements -/

namespace Tree

/-- The statement stands at some depth in a block. -/
inductive Stmt.Inside (stmt : Stmt) : List Stmt → Prop where
  | here {body : List Stmt} (h : stmt ∈ body) : Inside stmt body
  | yes {body : List Stmt} {span : Span} {test : Condition} {yes : List Stmt}
    {no : Option (List Stmt)} (h : .branch span test yes no ∈ body) (hs : Inside stmt yes) :
    Inside stmt body
  | no {body : List Stmt} {span : Span} {test : Condition} {yes no : List Stmt}
    (h : .branch span test yes (some no) ∈ body) (hs : Inside stmt no) : Inside stmt body
  | loop {body : List Stmt} {span : Span} {test : Condition} {inner : List Stmt}
    (h : .loop span test inner ∈ body) (hs : Inside stmt inner) : Inside stmt body
  | each {body : List Stmt} {span : Span} {binding : LoopBinding} {subject : Expr}
    {inner : List Stmt} {no : Option (List Stmt)}
    (h : .each span binding subject inner no ∈ body) (hs : Inside stmt inner) : Inside stmt body
  | other {body : List Stmt} {span : Span} {binding : LoopBinding} {subject : Expr}
    {inner no : List Stmt} (h : .each span binding subject inner (some no) ∈ body)
    (hs : Inside stmt no) : Inside stmt body
  | block {body : List Stmt} {span : Span} {inner : List Stmt} (h : .block span inner ∈ body)
    (hs : Inside stmt inner) : Inside stmt body

end Tree

namespace Target

/-- The statement stands at some depth in a block, function values apart. -/
inductive Stmt.Inside (stmt : Stmt) : List Stmt → Prop where
  | here {body : List Stmt} (h : stmt ∈ body) : Inside stmt body
  | yes {body : List Stmt} {test : Expr} {yes : List Stmt} {no : Option (List Stmt)}
    (h : .branch test yes no ∈ body) (hs : Inside stmt yes) : Inside stmt body
  | no {body : List Stmt} {test : Expr} {yes no : List Stmt}
    (h : .branch test yes (some no) ∈ body) (hs : Inside stmt no) : Inside stmt body
  | whileLoop {body : List Stmt} {test : Expr} {inner : List Stmt}
    (h : .whileLoop test inner ∈ body) (hs : Inside stmt inner) : Inside stmt body
  | forLoop {body : List Stmt} {init : List VarDecl} {test : Expr} {step : List Expr}
    {inner : List Stmt} (h : .forLoop init test step inner ∈ body) (hs : Inside stmt inner) :
    Inside stmt body
  | block {body : List Stmt} {inner : List Stmt} (h : .block inner ∈ body)
    (hs : Inside stmt inner) : Inside stmt body

/-- What stands in a block stands in every block with the same statements. -/
theorem Stmt.Inside.mono {stmt : Stmt} {body more : List Stmt} (hs : stmt.Inside body)
    (h : ∀ x ∈ body, x ∈ more) : stmt.Inside more := by
  cases hs with
  | here hmem => exact .here (h _ hmem)
  | yes hmem hs => exact .yes (h _ hmem) hs
  | no hmem hs => exact .no (h _ hmem) hs
  | whileLoop hmem hs => exact .whileLoop (h _ hmem) hs
  | forLoop hmem hs => exact .forLoop (h _ hmem) hs
  | block hmem hs => exact .block (h _ hmem) hs

/-- What stands in the body of a loop on a condition stands in the loop. -/
theorem Stmt.Inside.loop {stmt : Stmt} {body : List Stmt} (hs : stmt.Inside body)
    (c : LoweredCondition) : stmt.Inside [c.loop body] := by
  unfold LoweredCondition.loop
  split
  · exact .whileLoop List.mem_cons_self hs
  · exact .whileLoop List.mem_cons_self (hs.mono fun x hx => List.mem_append_right _ hx)

end Target

namespace Lowering

variable {α : Type} {s s' : LowerState}

/-- No step of a lowering changes the way to return for what comes after it. -/
theorem Composed.returns_eq {x : Lowering α} (hx : Composed True True x) {a : α}
    (h : Yields x s a s') : s'.returns = s.returns := by
  have hreturns := (hx.restoring s).returns
  rw [h] at hreturns
  exact hreturns

end Lowering

namespace Env

open Lowering

variable {env : Env} {s s' : LowerState}

/-! ## Code of inner blocks -/

/-- The block is lowered from a state with a given way to return, and its code
stands in other code. -/
def Lays (env : Env) (returns : Option ReturnForm) (body : List Tree.Stmt)
    (out : List Target.Stmt) : Prop :=
  ∃ t code t', Yields (env.lowerStmts body) t code t' ∧ t.returns = returns ∧
    ∀ x : Target.Stmt, x.Inside code → x.Inside out

/-- The same for one statement. -/
def LaysOne (env : Env) (returns : Option ReturnForm) (stmt : Tree.Stmt)
    (out : List Target.Stmt) : Prop :=
  ∃ t code t', Yields (env.lowerStmt stmt) t code t' ∧ t.returns = returns ∧
    ∀ x : Target.Stmt, x.Inside code → x.Inside out

theorem laysOne_of_mem {stmt : Tree.Stmt} {body : List Tree.Stmt} {out : List Target.Stmt}
    (hmem : stmt ∈ body) (h : Yields (env.lowerStmts body) s out s') :
    env.LaysOne s.returns stmt out := by
  induction body generalizing s out with
  | nil => contradiction
  | cons first rest ih =>
    rw [lowerStmts] at h
    obtain ⟨code, t, hfirst, h⟩ := yields_bind.mp h
    obtain ⟨more, t', hrest, h⟩ := yields_bind.mp h
    obtain ⟨rfl, rfl⟩ := yields_pure.mp h
    obtain rfl | hmem := List.mem_cons.mp hmem
    · refine ⟨s, code, t, hfirst, rfl, fun x hx => hx.mono fun y hy => ?_⟩
      exact List.mem_append_left _ hy
    · obtain ⟨u, inner, u', hu, hreturns, hinside⟩ := ih hmem hrest
      refine ⟨u, inner, u', hu, ?_, fun x hx => (hinside x hx).mono fun y hy => ?_⟩
      · rw [hreturns, (env.lowerStmt_composed first).returns_eq hfirst]
      · exact List.mem_append_right _ hy

theorem returns_of_moveTo {span : Span} {u : Unit} (h : Yields (Lowering.moveTo span) s u s') :
    s'.returns = s.returns := by
  obtain rfl := yields_change.mp h
  rfl

/-- A guarded block is the block, perhaps after the narrowed binding. -/
theorem guarded_lays {narrowed : Option Narrowed} {body : List Tree.Stmt}
    {out : List Target.Stmt} (h : Yields (guarded narrowed (env.lowerStmts body)) s out s') :
    env.Lays s.returns body out := by
  cases narrowed with
  | none => exact ⟨s, out, s', h, rfl, fun _ hx => hx⟩
  | some n =>
    obtain ⟨code, t, hblock, h⟩ := yields_bind.mp h
    obtain ⟨rfl, rfl⟩ := yields_pure.mp h
    obtain ⟨u, hinner, rfl⟩ := yields_withReplacement.mp hblock
    exact ⟨_, code, u, hinner, rfl, fun x hx => hx.mono fun y hy => List.mem_cons_of_mem _ hy⟩

theorem Lays.mono {returns : Option ReturnForm} {body : List Tree.Stmt}
    {out more : List Target.Stmt} (h : env.Lays returns body out)
    (hinside : ∀ x : Target.Stmt, x.Inside out → x.Inside more) : env.Lays returns body more := by
  obtain ⟨t, code, t', hrun, hreturns, hcode⟩ := h
  exact ⟨t, code, t', hrun, hreturns, fun x hx => hinside x (hcode x hx)⟩

theorem lowerElse_lays {body : List Tree.Stmt} {out : Option (List Target.Stmt)}
    (h : Yields (env.lowerElse (some body)) s out s') :
    ∃ code, out = some code ∧ env.Lays s.returns body code := by
  rw [lowerElse] at h
  obtain ⟨code, t, hblock, h⟩ := yields_bind.mp h
  obtain ⟨rfl, rfl⟩ := yields_pure.mp h
  exact ⟨code, rfl, s, code, _, hblock, rfl, fun _ hx => hx⟩

theorem branch_lays {span : Span} {test : Tree.Condition} {yes : List Tree.Stmt}
    {no : Option (List Tree.Stmt)} {out : List Target.Stmt}
    (h : Yields (env.lowerStmt (.branch span test yes no)) s out s') :
    env.Lays s.returns yes out ∧ ∀ body, no = some body → env.Lays s.returns body out := by
  rw [lowerStmt] at h
  obtain ⟨_, s₁, hmove, h⟩ := yields_bind.mp h
  obtain ⟨c, s₂, hc, h⟩ := yields_bind.mp h
  obtain ⟨thenCode, s₃, hyes, h⟩ := yields_bind.mp h
  obtain ⟨elseCode, s₄, hno, h⟩ := yields_bind.mp h
  obtain ⟨rfl, rfl⟩ := yields_pure.mp h
  have hbefore : s₂.returns = s.returns := by
    rw [(env.lowerCondition_composed test).returns_eq hc, returns_of_moveTo hmove]
  have hafter : s₃.returns = s.returns := by
    rw [(guarded_composed c.narrowed (env.lowerStmts_composed yes)).returns_eq hyes, hbefore]
  have hlast : Target.Stmt.branch c.test thenCode elseCode ∈ c.branch thenCode elseCode :=
    List.mem_append_right _ List.mem_cons_self
  constructor
  · rw [← hbefore]
    exact (guarded_lays hyes).mono fun x hx => .yes hlast hx
  · rintro body rfl
    obtain ⟨code, rfl, hlays⟩ := lowerElse_lays hno
    rw [← hafter]
    exact hlays.mono fun x hx => .no hlast hx

theorem loop_lays {span : Span} {test : Tree.Condition} {body : List Tree.Stmt}
    {out : List Target.Stmt} (h : Yields (env.lowerStmt (.loop span test body)) s out s') :
    env.Lays s.returns body out := by
  rw [lowerStmt] at h
  obtain ⟨_, s₁, hmove, h⟩ := yields_bind.mp h
  obtain ⟨code, s₂, hloop, h⟩ := yields_bind.mp h
  obtain ⟨rfl, rfl⟩ := yields_pure.mp h
  obtain ⟨t, hrounds, rfl⟩ := yields_withLoopGuard.mp hloop
  obtain ⟨c, t₁, hc, hrounds⟩ := yields_bind.mp hrounds
  obtain ⟨lowered, t₂, hbody, hrounds⟩ := yields_bind.mp hrounds
  obtain ⟨rfl, rfl⟩ := yields_pure.mp hrounds
  have hmoved := returns_of_moveTo hmove
  have hbefore : t₁.returns = s.returns := by
    rw [(env.lowerCondition_composed test).returns_eq hc]
    exact hmoved
  rw [← hbefore]
  exact (guarded_lays hbody).mono fun x hx => hx.loop c

theorem eq_some_of_loopGuard {guard : Option String} (h : Yields (loopGuard true) s guard s') :
    ∃ name, guard = some name := by
  obtain ⟨name, t, _, h⟩ := yields_bind.mp h
  exact ⟨name, (yields_pure.mp h).1⟩

theorem each_lays {span : Span} {binding : Tree.LoopBinding} {subject : Tree.Expr}
    {body : List Tree.Stmt} {no : Option (List Tree.Stmt)} {out : List Target.Stmt}
    (h : Yields (env.lowerStmt (.each span binding subject body no)) s out s') :
    env.Lays s.returns body out ∧ ∀ other, no = some other → env.Lays s.returns other out := by
  rw [lowerStmt] at h
  obtain ⟨_, s₁, hmove, h⟩ := yields_bind.mp h
  obtain ⟨guard, s₂, hguard, h⟩ := yields_bind.mp h
  obtain ⟨code, s₃, hloop, h⟩ := yields_bind.mp h
  obtain ⟨otherCode, s₄, hother, h⟩ := yields_bind.mp h
  obtain ⟨rfl, rfl⟩ := yields_pure.mp h
  obtain ⟨t, hrounds, rfl⟩ := yields_withLoopGuard.mp hloop
  obtain ⟨head, t₁, hhead, hrounds⟩ := yields_bind.mp hrounds
  obtain ⟨lowered, t₂, hbody, hrounds⟩ := yields_bind.mp hrounds
  obtain ⟨rfl, rfl⟩ := yields_pure.mp hrounds
  have hmoved : s₂.returns = s.returns := by
    rw [(loopGuard_composed no.isSome).returns_eq hguard, returns_of_moveTo hmove]
  constructor
  · have hbefore : t₁.returns = s.returns := by
      rw [(env.loopHead_composed binding subject).returns_eq hhead]
      exact hmoved
    refine ⟨t₁, lowered, _, hbody, hbefore, fun x hx => ?_⟩
    refine .forLoop (List.mem_append_right _ List.mem_cons_self) (hx.mono fun y hy => ?_)
    exact List.mem_append_right _ hy
  · rintro other rfl
    obtain ⟨more, rfl, hlays⟩ := lowerElse_lays hother
    have hbefore : t.returns = s.returns := by
      rw [(env.lowerStmts_composed body).returns_eq hbody,
        (env.loopHead_composed binding subject).returns_eq hhead]
      exact hmoved
    obtain ⟨name, rfl⟩ := eq_some_of_loopGuard hguard
    rw [← hbefore]
    refine hlays.mono fun x hx => ?_
    refine .yes (List.mem_append_right _ (List.mem_cons_of_mem _ List.mem_cons_self)) hx

theorem block_lays {span : Span} {body : List Tree.Stmt} {out : List Target.Stmt}
    (h : Yields (env.lowerStmt (.block span body)) s out s') : env.Lays s.returns body out := by
  rw [lowerStmt] at h
  obtain ⟨_, s₁, hmove, h⟩ := yields_bind.mp h
  obtain ⟨code, s₂, hbody, h⟩ := yields_bind.mp h
  obtain ⟨rfl, rfl⟩ := yields_pure.mp h
  exact ⟨s₁, code, _, hbody, returns_of_moveTo hmove, fun x hx => .block List.mem_cons_self hx⟩

theorem LaysOne.inner {returns : Option ReturnForm} {stmt : Tree.Stmt} {inner : List Tree.Stmt}
    {out : List Target.Stmt} (h : env.LaysOne returns stmt out)
    (hinner : ∀ {t code t'}, Yields (env.lowerStmt stmt) t code t' →
      env.Lays t.returns inner code) : env.Lays returns inner out := by
  obtain ⟨t, code, t', hrun, rfl, hcode⟩ := h
  exact (hinner hrun).mono hcode

/-- At any depth, a statement of a block is lowered with the block's way to return,
and its code stands in the block's code. -/
theorem laysOne_of_inside {stmt : Tree.Stmt} {body : List Tree.Stmt} (hin : stmt.Inside body)
    {returns : Option ReturnForm} {out : List Target.Stmt} (h : env.Lays returns body out) :
    env.LaysOne returns stmt out := by
  have hmem : ∀ {x : Tree.Stmt} {body returns out}, x ∈ body → env.Lays returns body out →
      env.LaysOne returns x out := by
    rintro x body returns out hx ⟨t, code, t', hrun, rfl, hcode⟩
    obtain ⟨u, inner, u', hu, hreturns, hinside⟩ := laysOne_of_mem hx hrun
    exact ⟨u, inner, u', hu, hreturns, fun y hy => hcode y (hinside y hy)⟩
  induction hin generalizing returns out with
  | here hx => exact hmem hx h
  | yes hx _ ih => exact ih ((hmem hx h).inner fun hrun => (branch_lays hrun).1)
  | no hx _ ih => exact ih ((hmem hx h).inner fun hrun => (branch_lays hrun).2 _ rfl)
  | loop hx _ ih => exact ih ((hmem hx h).inner loop_lays)
  | each hx _ ih => exact ih ((hmem hx h).inner fun hrun => (each_lays hrun).1)
  | other hx _ ih => exact ih ((hmem hx h).inner fun hrun => (each_lays hrun).2 _ rfl)
  | block hx _ ih => exact ih ((hmem hx h).inner block_lays)

end Env

/-! ## Unboxing conversions -/

/-- Where there is no absent case to take away, the string is the type itself. -/
theorem Ty.isString_of_nonNull {t : Ty} (hsole : t.collapse = t) (hoptional : t.isOptional = false)
    (h : t.nonNull.isString = true) : t.isString = true := by
  obtain hself | hself | hself := Ty.nonNull_of_not_optional hoptional
  · rwa [hself] at h
  · rw [hself] at hsole
    exact absurd hsole (Ty.collapse_union_ne _)
  · rw [hself] at h
    contradiction

theorem Ty.definite_isString {t : Ty} (hoptional : t.isOptional = true)
    (h : t.nonNull.isString = true) : t.definite.isString = true := by
  obtain ⟨hint, hstring⟩ := Ty.isExactly_iff.mp h
  cases t with
  | nominal d as o h' =>
    simp only [Ty.isOptional, Bool.or_eq_true, beq_iff_eq] at hoptional
    obtain rfl | rfl := hoptional
    · contradiction
    · contradiction
  | union cases =>
    simp only [Ty.nonNull] at hstring
    simp only [Ty.definite]
    generalize Ty.presentCases cases = present at hstring ⊢
    cases present with
    | nil => contradiction
    | cons only rest =>
      cases rest with
      | nil =>
        obtain rfl : only = .nominal Language.string [] none hint := hstring
        rfl
      | cons _ _ => contradiction
  | inter _ | param _ | bottom | error => contradiction

/-- The accessors of the raw values of boxed ones. -/
def Support.unboxMethods : List String :=
  [unboxInteger, unboxFloat, unboxString, unboxChar, unboxCodePoint, unboxBoolean, unboxArray]

/-- The second code is the first one under an unboxing conversion: an accessor of
the raw value, which an absent string is kept from, or nothing at all around a
string literal. -/
inductive Target.Expr.UnboxedAs (code : Target.Expr) : Target.Expr → Prop where
  | accessor {method : String} (h : method ∈ Support.unboxMethods) :
    UnboxedAs code (code.get method)
  | present (tmp : String) (ty : Target.Ty) :
    UnboxedAs code (.letIn [.declareFinal tmp ty code]
      (.cond (.binary .ne (.ident tmp) .null) ((Target.Expr.ident tmp).get Support.unboxString)
        .null))
  | literal (h : code.isStringLiteral = true) : UnboxedAs code code

/-- Nothing but a string literal is unboxed as it is. -/
theorem Target.Expr.unboxedAs_self_iff {code : Target.Expr} :
    code.UnboxedAs code ↔ code.isStringLiteral = true := by
  have hliteral : ∀ raw, code.UnboxedAs raw → raw = code → code.isStringLiteral = true := by
    intro raw h hself
    cases h with
    | accessor h => exact absurd hself (code.get_ne _)
    | present tmp ty => exact absurd hself (code.letIn_declare_ne _ tmp ty)
    | literal h => exact h
  exact ⟨fun h => hliteral code h rfl, .literal⟩

namespace Env

open Lowering

variable {env : Env} {s s' : LowerState}

/-- A lowered expression in raw form: as it is, or under an unboxing conversion. -/
def Natural.RawAs (n : Natural) (code : Target.Expr) : Prop :=
  n.raw = true ∧ code = n.code ∨ n.raw = false ∧ n.code.UnboxedAs code

/-- Boxed values of the type are made raw by a conversion. -/
def converts (env : Env) (t : Ty) : Bool :=
  t.isScalar || env.model.isBoolean t || env.model.isArray t ||
    (t.isOptional && t.definite.isString)

theorem mem_unboxMethods {t : Ty} {method : String} (h : env.unboxMethod? t = some method) :
    method ∈ Support.unboxMethods := by
  unfold unboxMethod? at h
  repeat' split at h
  all_goals first
    | (obtain rfl := Option.some.inj h; decide)
    | contradiction

theorem converts_eq (env : Env) (t : Ty) :
    env.converts t = (t.isString || (env.unboxMethod? t).isSome ||
      (t.isOptional && t.definite.isString)) := by
  have hsome : (env.unboxMethod? t).isSome = (t.isInteger || t.isFloat || t.isCharacter ||
      env.model.isBoolean t || env.model.isArray t) := by
    unfold unboxMethod?
    repeat' split
    all_goals simp_all
  unfold converts Ty.isScalar
  rw [hsome]
  simp only [Bool.or_assoc]

theorem unboxedAs_unboxString (e : Target.Expr) : e.UnboxedAs (unboxString e) := by
  unfold unboxString
  split
  · next h => exact .literal h
  · exact .accessor (by decide)

theorem unboxedAs_unboxOptionalString {e code : Target.Expr}
    (h : Yields (env.unboxOptionalString e) s code s') : e.UnboxedAs code := by
  unfold unboxOptionalString at h
  split at h
  · next hliteral =>
    obtain ⟨rfl, _⟩ := yields_pure.mp h
    exact .literal hliteral
  · obtain ⟨tmp, s₁, _, h⟩ := yields_bind.mp h
    obtain ⟨ty, s₂, _, h⟩ := yields_bind.mp h
    obtain ⟨rfl, _⟩ := yields_pure.mp h
    exact .present tmp ty

/-- A boxed value is unboxed exactly when its type is one that boxed values are
converted for, or when it is a string literal. -/
theorem unboxedAs_unboxValue_iff {e code : Target.Expr} {t : Ty}
    (h : Yields (env.unboxValue e t) s code s') :
    e.UnboxedAs code ↔ e.isStringLiteral = true ∨ env.converts t = true := by
  unfold unboxValue at h
  rw [converts_eq]
  split at h
  · next hstring =>
    obtain ⟨rfl, _⟩ := yields_pure.mp h
    exact iff_of_true (unboxedAs_unboxString e) (.inr (by simp [hstring]))
  · next hstring =>
    cases hmethod : env.unboxMethod? t with
    | some method =>
      rw [hmethod] at h
      obtain ⟨rfl, _⟩ := yields_pure.mp h
      exact iff_of_true (.accessor (mem_unboxMethods hmethod)) (.inr (by simp))
    | none =>
      rw [hmethod] at h
      dsimp only at h
      split at h
      · next hoptional =>
        exact iff_of_true (unboxedAs_unboxOptionalString h) (.inr (by simp [hoptional]))
      · next hoptional =>
        obtain ⟨rfl, _⟩ := yields_pure.mp h
        rw [Target.Expr.unboxedAs_self_iff]
        simp [hstring, hoptional]

/-- A value that raw form is asked for arrives raw exactly when it is raw by
nature, a string literal, or of a type that boxed values are converted for. -/
theorem rawAs_convert_iff {n : Natural} {t : Ty} {code : Target.Expr}
    (h : Yields (env.convert n.code (!n.raw) t .raw) s code s') :
    n.RawAs code ↔
      n.raw = true ∨ n.code.isStringLiteral = true ∨ env.converts t = true := by
  cases hraw : n.raw with
  | true =>
    rw [hraw] at h
    obtain ⟨rfl, _⟩ := yields_pure.mp h
    exact iff_of_true (.inl ⟨hraw, rfl⟩) (.inl rfl)
  | false =>
    rw [hraw] at h
    have hconverted := unboxedAs_unboxValue_iff h
    unfold Natural.RawAs
    simp only [hraw, Bool.false_eq_true, false_and, true_and, false_or]
    exact hconverted

/-- A string that is left without its absent case is one that values are converted
for. -/
theorem converts_of_string {t : Ty} (hsole : t.collapse = t) (h : t.nonNull.isString = true) :
    env.converts t = true := by
  cases hoptional : t.isOptional with
  | true => simp [converts, hoptional, Ty.definite_isString hoptional h]
  | false => simp [converts, Ty.isScalar, Ty.isString_of_nonNull hsole hoptional h]

/-- A type that is kept raw is one that values are converted for, as far as nothing of
it is hidden. -/
theorem converts_of_evident {t : Ty} (h : env.model.Evident t)
    (hraw : (env.valueForm t).answer? = some .raw) : env.converts t = true := by
  have hunbox := (keptRaw_iff_canUnbox h).mp (valueForm_raw_iff.mp hraw)
  obtain hbasic | hplatform := (Bool.or_eq_true _ _).mp hunbox
  · obtain hboolean | hscalar := Model.isBasic_iff.mp hbasic
    · simp [converts, hboolean]
    · simp [converts, Ty.isScalar_iff.mpr hscalar]
  · exact converts_of_string h.sole (h.string hplatform)

/-! ## Positions -/

/-- The code of a value in a position of a type.  Where the values of the type are kept
raw, this one is raw exactly when it is so by nature, a string literal, or of a type
that boxed values are converted for; so it is when it has the type itself and nothing
of that is hidden. -/
def Arrives (env : Env) (t : Ty) (e : Tree.Expr) (code : Target.Expr) : Prop :=
  ∃ s n s', Yields (env.lowerNatural e) s n s' ∧
    ((env.valueForm t).answer? = some .raw →
      (n.RawAs code ↔
        n.raw = true ∨ n.code.isStringLiteral = true ∨ env.converts e.ty = true) ∧
      (e.ty = t → env.model.Evident t → n.RawAs code))

theorem arrives_of_yields {e : Tree.Expr} {t : Ty} {form : Form} {code : Target.Expr}
    (hform : (env.valueForm t).answer? = some form)
    (h : Yields (env.lowerExpr e form) s code s') : env.Arrives t e code := by
  obtain ⟨n, u, hn, hconvert⟩ := yields_bind.mp h
  refine ⟨s, n, u, hn, fun hraw => ?_⟩
  obtain rfl : form = .raw := Option.some.inj (hform.symm.trans hraw)
  have hiff := rawAs_convert_iff hconvert
  refine ⟨hiff, fun hself hevident => ?_⟩
  subst hself
  exact hiff.mpr (.inr (.inr (converts_of_evident hevident hraw)))

/-- A returned value arrives in the form of the way to return. -/
theorem ret_arrives {span : Span} {e : Tree.Expr} {t : Ty} {form : Form}
    {inCallable : Bool} {out : List Target.Stmt}
    (hform : (env.valueForm t).answer? = some form)
    (hreturns : s.returns = some ⟨form, inCallable⟩)
    (h : Yields (env.lowerStmt (.ret span (some e))) s out s') :
    ∃ code, out = [.ret (some code)] ∧ env.Arrives t e code := by
  rw [lowerStmt] at h
  obtain ⟨_, s₁, hmove, h⟩ := yields_bind.mp h
  obtain ⟨returns, s₂, hread, h⟩ := yields_bind.mp h
  obtain ⟨value, s₃, hvalue, h⟩ := yields_bind.mp h
  obtain ⟨rfl, rfl⟩ := yields_pure.mp h
  obtain ⟨rfl, rfl⟩ := yields_reads.mp hread
  rw [returns_of_moveTo hmove, hreturns] at hvalue
  obtain ⟨code, hcode, rfl⟩ := yields_map.mp hvalue
  exact ⟨code, rfl, arrives_of_yields hform hcode⟩

/-- The value of a declaration arrives in the form that the declared type is kept
in. -/
theorem declare_arrives {span : Span} {var : Tree.Variable} {e : Tree.Expr} {isVariable : Bool}
    {out : List Target.Stmt}
    (h : Yields (env.lowerStmt (.declare span var (some e) isVariable)) s out s') :
    ∃ ty code, out = [.declare (.mk (!isVariable) var.name ty (some code))] ∧
      env.Arrives var.ty e code := by
  rw [lowerStmt] at h
  obtain ⟨_, s₁, hmove, h⟩ := yields_bind.mp h
  obtain ⟨stmt, s₂, hdeclare, h⟩ := yields_bind.mp h
  obtain ⟨rfl, rfl⟩ := yields_pure.mp h
  obtain ⟨form, t₁, hform, h⟩ := yields_bind.mp hdeclare
  obtain ⟨ty, t₂, hty, h⟩ := yields_bind.mp h
  obtain ⟨value, t₃, hvalue, h⟩ := yields_bind.mp h
  obtain ⟨_, t₄, _, h⟩ := yields_bind.mp h
  obtain ⟨rfl, rfl⟩ := yields_pure.mp h
  obtain ⟨code, hcode, rfl⟩ := yields_map.mp hvalue
  exact ⟨ty, code, rfl, arrives_of_yields hform.answer hcode⟩

/-! ## Functions -/

/-- The body of a function with one parameter list is lowered with the way to return
that its result type asks for. -/
theorem lowerFunction_lays {f : Tree.Function} {params : List Parameter} {result : Ty}
    {method : Target.Method} (hlists : (env.model.decl f.decl).paramLists = [params])
    (h : Yields (env.lowerFunction f result) s method s') :
    ∃ modifiers typeParams ty name ps body form,
      method = .mk modifiers typeParams ty name ps (some body) ∧
        (env.methodResult result).answer? = some ty ∧
        (env.valueForm result).answer? = some form ∧
        env.Lays (some ⟨form, false⟩) f.body body := by
  unfold lowerFunction at h
  dsimp only at h
  rw [hlists] at h
  dsimp only at h
  obtain ⟨_, s₁, _, h⟩ := yields_bind.mp h
  obtain ⟨typeParams, s₂, _, h⟩ := yields_bind.mp h
  obtain ⟨ps, s₃, _, h⟩ := yields_bind.mp h
  simp only [List.isEmpty_nil, if_true] at h
  obtain ⟨⟨ty, body⟩, s₄, hbody, h⟩ := yields_bind.mp h
  obtain ⟨rfl, rfl⟩ := yields_pure.mp h
  obtain ⟨form, t₁, hform, hbody⟩ := yields_bind.mp hbody
  obtain ⟨lowered, t₂, hlowered, hbody⟩ := yields_bind.mp hbody
  obtain ⟨resultTy, t₃, hty, hbody⟩ := yields_bind.mp hbody
  obtain ⟨heq, rfl⟩ := yields_pure.mp hbody
  obtain ⟨rfl, rfl⟩ := Prod.mk.inj heq
  obtain ⟨u, hstmts, rfl⟩ := yields_withReturns.mp hlowered
  exact ⟨_, _, _, _, _, _, form, rfl, hty.answer, hform.answer, _, _, u, hstmts, rfl,
    fun _ hx => hx⟩

end Env

namespace Backend

theorem yields_of_method {b : Backend} {f : Tree.Function} {method : Target.Method}
    (h : (b.lowerFunction f).1 = some method) :
    ∃ s', Lowering.Yields (b.env.lowerFunction f (b.env.model.resultType f.decl))
      (.start b.table) method s' := by
  unfold lowerFunction Lowered.method? Env.lowerAlone at h
  dsimp only at h
  split at h
  · next hok =>
    cases h
    exact ⟨_, Prod.ext hok rfl⟩
  · contradiction

/-- In a function with one parameter list every returned value arrives in the form in
which values of the method's result type are kept, whether that is the function's
own or an inherited one, and every declared value in the form in which values of the
declared type are. -/
theorem lowerFunction_arrives (b : Backend) (f : Tree.Function) (params : List Parameter)
    (method : Target.Method) (hlists : (b.env.model.decl f.decl).paramLists = [params])
    (hmethod : (b.lowerFunction f).1 = some method) :
    ∃ modifiers typeParams ty name ps body,
      method = .mk modifiers typeParams ty name ps (some body) ∧
        (b.env.methodResult (b.env.model.resultType f.decl)).answer? = some ty ∧
        (∀ span e, Tree.Stmt.Inside (.ret span (some e)) f.body →
          ∃ code, Target.Stmt.Inside (.ret (some code)) body ∧
            b.env.Arrives (b.env.model.resultType f.decl) e code) ∧
        ∀ span var e isVariable, Tree.Stmt.Inside (.declare span var (some e) isVariable) f.body →
          ∃ ty code,
            Target.Stmt.Inside (.declare (.mk (!isVariable) var.name ty (some code))) body ∧
              b.env.Arrives var.ty e code := by
  obtain ⟨s', hrun⟩ := yields_of_method hmethod
  obtain ⟨modifiers, typeParams, ty, name, ps, body, form, rfl, hty, hform, hlays⟩ :=
    Env.lowerFunction_lays hlists hrun
  refine ⟨modifiers, typeParams, ty, name, ps, body, rfl, hty, fun span e hin => ?_,
    fun span var e isVariable hin => ?_⟩
  · obtain ⟨t, out, t', hret, hreturns, hinside⟩ := Env.laysOne_of_inside hin hlays
    obtain ⟨code, rfl, harrives⟩ := Env.ret_arrives hform hreturns hret
    exact ⟨code, hinside _ (.here List.mem_cons_self), harrives⟩
  · obtain ⟨t, out, t', hdeclare, _, hinside⟩ := Env.laysOne_of_inside hin hlays
    obtain ⟨ty', code, rfl, harrives⟩ := Env.declare_arrives hdeclare
    exact ⟨ty', code, hinside _ (.here List.mem_cons_self), harrives⟩

/-- A method `Integer first<T>(t x) given T satisfies Integer`. -/
def handing (t : Ty) : Model where
  decls := #[
    { Declaration.bare "first" .method "demo" none with
      typeParams := [⟨10⟩], ty := some Language.integerTy, paramLists := [[⟨"x", t, none⟩]] }]
  params := #[⟨"T", .invariant, [Language.integerTy], ⟨22⟩, false⟩]

/-- The argument of the method, which is boxed. -/
def handedArgument (t : Ty) : Tree.Expr := .ident ⟨t, false, .dummy⟩ "x"

/-- The method returns its argument. -/
def handed (t : Ty) : Tree.Function := ⟨⟨22⟩, [.ret .dummy (some (handedArgument t))], .dummy⟩

/-- An argument that is a number is returned as a raw number. -/
theorem handing_arrives :
    ((handing Language.integerTy).decl ⟨22⟩).paramLists =
        [[⟨"x", Language.integerTy, none⟩]] ∧
      ∃ modifiers typeParams ty name ps body code,
        ((starting (handing Language.integerTy)).lowerFunction (handed Language.integerTy)).1 =
            some (.mk modifiers typeParams ty name ps (some body)) ∧
          Target.Stmt.Inside (.ret (some code)) body ∧
          ∃ s n s', Lowering.Yields
              ((starting (handing Language.integerTy)).env.lowerNatural
                (handedArgument Language.integerTy)) s n s' ∧
            n.raw = false ∧ n.RawAs code := by
  have hlists : ((handing Language.integerTy).decl ⟨22⟩).paramLists =
      [[⟨"x", Language.integerTy, none⟩]] := rfl
  obtain ⟨method, hmethod⟩ := Option.isSome_iff_exists.mp
    (by decide : ((starting (handing Language.integerTy)).lowerFunction
      (handed Language.integerTy)).1.isSome = true)
  obtain ⟨modifiers, typeParams, ty, name, ps, body, rfl, -, hrets, -⟩ :=
    lowerFunction_arrives (starting (handing Language.integerTy)) (handed Language.integerTy)
      [⟨"x", Language.integerTy, none⟩] method hlists hmethod
  obtain ⟨code, hinside, s, n, s', hn, harrives⟩ :=
    hrets .dummy (handedArgument Language.integerTy) (.here List.mem_cons_self)
  obtain ⟨hiff, hself⟩ := harrives (by decide)
  have hevident : (handing Language.integerTy).Evident Language.integerTy :=
    ⟨by decide, by decide, by decide, by decide⟩
  refine ⟨hlists, modifiers, typeParams, ty, name, ps, body, code, hmethod, hinside, s, n, s',
    hn, ?_, hself rfl hevident⟩
  obtain ⟨target, t, _, hpure⟩ := Lowering.yields_bind.mp hn
  obtain ⟨rfl, _⟩ := Lowering.yields_pure.mp hpure
  rfl

/-- An argument whose type is a parameter below numbers is returned boxed, from a
method that declares a raw number. -/
theorem handing_below :
    (handing (.param ⟨10⟩)).isSubtypeOf (.param ⟨10⟩) Language.integer = true ∧
      ((starting (handing (.param ⟨10⟩))).env.valueForm
        ((handing (.param ⟨10⟩)).resultType ⟨22⟩)).answer? = some .raw ∧
      ∃ modifiers typeParams ty name ps body,
        ((starting (handing (.param ⟨10⟩))).lowerFunction (handed (.param ⟨10⟩))).1 =
            some (.mk modifiers typeParams ty name ps (some body)) ∧
          ∀ code, Target.Stmt.Inside (.ret (some code)) body → ∀ s n s',
            Lowering.Yields ((starting (handing (.param ⟨10⟩))).env.lowerNatural
              (handedArgument (.param ⟨10⟩))) s n s' → ¬ n.RawAs code := by
  refine ⟨by decide, by decide, _, _, _, _, _, [.ret (some (.ident "x"))], rfl, ?_⟩
  intro code hcode s n s' hn harrives
  obtain rfl : code = .ident "x" := by
    cases hcode with
    | here hmem =>
      cases List.mem_singleton.mp hmem
      rfl
    | yes hmem _ => cases List.mem_singleton.mp hmem
    | no hmem _ => cases List.mem_singleton.mp hmem
    | whileLoop hmem _ => cases List.mem_singleton.mp hmem
    | forLoop hmem _ => cases List.mem_singleton.mp hmem
    | block hmem _ => cases List.mem_singleton.mp hmem
  obtain ⟨target, t, _, hpure⟩ := Lowering.yields_bind.mp hn
  obtain ⟨rfl, _⟩ := Lowering.yields_pure.mp hpure
  obtain ⟨hraw, _⟩ | ⟨_, hunboxed⟩ := harrives
  · contradiction
  · cases hunboxed with
    | literal hliteral => contradiction

end Backend

end TreeLowering
