import TreeLowering.Proofs.Live
set_option autoImplicit false

/-!
# Proofs: execution and reachability

The target judges from the form of statements whether control can pass them, and
whether a break in them leaves the loop around.  Here statements are executed:
they end normally, by leaving the loop directly around them, or by a return.
What expressions do is left open, so that the judgement is compared with every
meaning that expressions may have; a let-expression may run its statements, as
long as these do not jump out of it.  Only the literal `true` is known to be
true.

Whatever expressions mean, statements end in no way that the judgement excludes.
For live code it excludes nothing else: when a test may turn out either way,
statements end in each way that the judgement admits.
-/

namespace TreeLowering.Target

/-! ## Executions -/

/-- How statements end. -/
inductive Ending (V : Type) where
  | normal
  /-- The loop directly around is left. -/
  | leave
  | ret (value : V)

/-- What is executed. -/
inductive Code where
  | stmt (s : Stmt)
  /-- Statements, one after the other. -/
  | stmts (ss : List Stmt)
  /-- A loop, from a test on, with what it does between its rounds. -/
  | loop (test : Expr) (step : List Expr) (body : List Stmt)

/-- What expressions and variables mean, over states `σ` and values `V`. -/
structure Semantics (σ V : Type) where
  /-- An expression yields a value and leaves a state, if it comes to an end. -/
  eval : Expr → σ → V → σ → Prop
  /-- A value decides a test. -/
  decides : V → Bool → Prop
  /-- A variable is declared. -/
  declares : VarDecl → σ → σ → Prop
  /-- The state after a scope, given the states at its start and at its end. -/
  exit : σ → σ → σ
  /-- The value of a return without one. -/
  absent : V
  /-- The literal `true` is not false. -/
  eval_true : ∀ {e s v s'}, e.isTrue = true → eval e s v s' → ¬decides v false

namespace Semantics

variable {σ V : Type} (sem : Semantics σ V)

/-- Expressions are evaluated one after the other. -/
inductive EvalsAll : List Expr → σ → σ → Prop
  | nil {s} : EvalsAll [] s s
  | cons {e es s v t u} : sem.eval e s v t → EvalsAll es t u → EvalsAll (e :: es) s u

/-- Variables are declared one after the other. -/
inductive DeclaresAll : List VarDecl → σ → σ → Prop
  | nil {s} : DeclaresAll [] s s
  | cons {d ds s t u} : sem.declares d s t → DeclaresAll ds t u → DeclaresAll (d :: ds) s u

/-- An expression yields a value that decides a test. -/
def Tests (test : Expr) (s : σ) (b : Bool) (t : σ) : Prop :=
  ∃ v, sem.eval test s v t ∧ sem.decides v b

/-- The value of a return. -/
def Returns : Option Expr → σ → V → σ → Prop
  | none, s, v, t => v = sem.absent ∧ t = s
  | some e, s, v, t => sem.eval e s v t

/-- Code runs from one state to another one and ends in a way. -/
inductive Runs : Code → σ → Ending V → σ → Prop
  | declare {d s t} : sem.declares d s t → Runs (.stmt (.declare d)) s .normal t
  | exec {e s v t} : sem.eval e s v t → Runs (.stmt (.exec e)) s .normal t
  | yes {test yes no s t r u} : sem.Tests test s true t → Runs (.stmts yes) t r u →
      Runs (.stmt (.branch test yes no)) s r (sem.exit t u)
  | no {test yes no s t r u} : sem.Tests test s false t → Runs (.stmts (no.getD [])) t r u →
      Runs (.stmt (.branch test yes no)) s r (sem.exit t u)
  | whileLoop {test body s r t} : Runs (.loop test [] body) s r t →
      Runs (.stmt (.whileLoop test body)) s r t
  | forLoop {init test step body s t r u} : sem.DeclaresAll init s t →
      Runs (.loop test step body) t r u →
      Runs (.stmt (.forLoop init test step body)) s r (sem.exit s u)
  | leave {s} : Runs (.stmt .leave) s .leave s
  | ret {value s v t} : sem.Returns value s v t → Runs (.stmt (.ret value)) s (.ret v) t
  | block {body s r t} : Runs (.stmts body) s r t → Runs (.stmt (.block body)) s r (sem.exit s t)
  | nil {s} : Runs (.stmts []) s .normal s
  | cons {stmt rest s t r u} : Runs (.stmt stmt) s .normal t → Runs (.stmts rest) t r u →
      Runs (.stmts (stmt :: rest)) s r u
  | stop {stmt rest s r t} : Runs (.stmt stmt) s r t → r ≠ .normal →
      Runs (.stmts (stmt :: rest)) s r t
  /-- The test fails. -/
  | done {test step body s t} : sem.Tests test s false t →
      Runs (.loop test step body) s .normal t
  /-- One more round. -/
  | next {test step body s t u w r x} : sem.Tests test s true t → Runs (.stmts body) t .normal u →
      sem.EvalsAll step (sem.exit t u) w → Runs (.loop test step body) w r x →
      Runs (.loop test step body) s r x
  /-- A break in the body leaves the loop. -/
  | left {test step body s t u} : sem.Tests test s true t → Runs (.stmts body) t .leave u →
      Runs (.loop test step body) s .normal (sem.exit t u)
  /-- A return in the body ends the loop. -/
  | returned {test step body s t v u} : sem.Tests test s true t → Runs (.stmts body) t (.ret v) u →
      Runs (.loop test step body) s (.ret v) (sem.exit t u)

end Semantics

/-! ## What the judgement excludes -/

namespace Code

/-- Control can pass to what follows the code. -/
def completes : Code → Bool
  | stmt s => s.completes
  | stmts ss => Stmt.allComplete ss
  | loop test _ body => !test.isTrue || Stmt.anyBreaksOut body

/-- A break in the code leaves the loop directly around it. -/
def breaksOut : Code → Bool
  | stmt s => s.breaksOut
  | stmts ss => Stmt.anyBreaksOut ss
  | loop _ _ _ => false

/-- The judgement admits the way in which the code ends. -/
def Admits {V : Type} (c : Code) : Ending V → Prop
  | .normal => c.completes = true
  | .leave => c.breaksOut = true
  | .ret _ => True

end Code

namespace Semantics

variable {σ V : Type} {sem : Semantics σ V} {c : Code} {s s' : σ} {r : Ending V}

theorem not_isTrue {test : Expr} {t : σ} (h : sem.Tests test s false t) : test.isTrue = false := by
  obtain ⟨v, heval, hfalse⟩ := h
  rw [Bool.eq_false_iff]
  exact fun htrue => sem.eval_true htrue heval hfalse

/-- A branch ends as one of its two lists of statements does. -/
theorem admits_branch {test : Expr} {yes : List Stmt} {no : Option (List Stmt)}
    (h : (Code.stmts yes).Admits r ∨ (Code.stmts (no.getD [])).Admits r) :
    (Code.stmt (.branch test yes no)).Admits r := by
  have hcompletes : Stmt.elseCompletes no = Stmt.allComplete (no.getD []) := by cases no <;> rfl
  have hbreaks : Stmt.elseBreaksOut no = Stmt.anyBreaksOut (no.getD []) := by cases no <;> rfl
  cases r with
  | normal =>
    simpa only [Code.Admits, Code.completes, Stmt.completes, hcompletes, Bool.or_eq_true] using h
  | leave =>
    simpa only [Code.Admits, Code.breaksOut, Stmt.breaksOut, hbreaks, Bool.or_eq_true] using h
  | ret => trivial

/-- Code ends in no way that the judgement excludes. -/
theorem Runs.admits (h : sem.Runs c s r s') : c.Admits r := by
  induction h with
  | declare | exec | leave | nil => rfl
  | ret | returned => trivial
  | yes _ _ ih => exact admits_branch (.inl ih)
  | no _ _ ih => exact admits_branch (.inr ih)
  | @whileLoop test body _ r _ _ ih =>
    cases r with
    | normal => exact ih
    | leave => exact ih
    | ret => trivial
  | @forLoop _ _ _ _ _ _ r _ _ _ ih =>
    cases r with
    | normal => exact ih
    | leave => exact ih
    | ret => trivial
  | @block _ _ r _ _ ih =>
    cases r with
    | normal => exact ih
    | leave => exact ih
    | ret => trivial
  | @cons stmt rest _ _ r _ _ _ ihstmt ihrest =>
    cases r with
    | normal => exact Bool.and_eq_true_iff.mpr ⟨ihstmt, ihrest⟩
    | leave => exact Bool.or_eq_true_iff.mpr (.inr ihrest)
    | ret => trivial
  | @stop stmt rest _ r _ _ hne ih =>
    cases r with
    | normal => contradiction
    | leave => exact Bool.or_eq_true_iff.mpr (.inl ih)
    | ret => trivial
  | done htest => exact Bool.or_eq_true_iff.mpr (.inl (by rw [not_isTrue htest]; rfl))
  | next _ _ _ _ _ ih => exact ih
  | left _ _ ih => exact Bool.or_eq_true_iff.mpr (.inr ih)

end Semantics

/-! ## What the judgement admits -/

namespace Stmt

mutual

/-- No branch in the statement is decided by the literal `true`. -/
def undecided : Stmt → Bool
  | branch test yes no => !test.isTrue && allUndecided yes && elseUndecided no
  | whileLoop _ body | forLoop _ _ _ body | block body => allUndecided body
  | declare _ | exec _ | leave | ret _ => true

/-- No branch in the statements is decided by the literal `true`. -/
def allUndecided : List Stmt → Bool
  | [] => true
  | s :: ss => undecided s && allUndecided ss

/-- No branch in the other branch is decided by the literal `true`. -/
def elseUndecided : Option (List Stmt) → Bool
  | none => true
  | some ss => allUndecided ss

end

end Stmt

namespace Semantics

/-- Every test other than the literal `true` may turn out either way. -/
def free : Semantics Unit Bool where
  eval e _ b _ := e.isTrue = true → b = true
  decides b b' := b = b'
  declares _ _ _ := True
  exit _ s := s
  absent := false
  eval_true := by
    rintro e s v s' htrue heval rfl
    exact Bool.false_ne_true (heval htrue)

theorem free_tests_true (test : Expr) : free.Tests test () true () := ⟨true, fun _ => rfl, rfl⟩

theorem free_tests_false {test : Expr} (h : test.isTrue = false) :
    free.Tests test () false () :=
  ⟨false, fun htrue => absurd htrue (by simp [h]), rfl⟩

theorem free_declaresAll (ds : List VarDecl) : free.DeclaresAll ds () () := by
  induction ds with
  | nil => exact .nil
  | cons d ds ih => exact .cons trivial ih

/-- The code ends in each way that is possible for it at all. -/
structure Ends (completes breaks : Bool) (c : Code) : Prop where
  normal : completes = true → free.Runs c () .normal ()
  leave : breaks = true → free.Runs c () .leave ()

/-- A loop ends when its test may fail or a break leaves it. -/
theorem Ends.loop {completes : Bool} {body : List Stmt} (test : Expr) (step : List Expr)
    (h : Ends completes (Stmt.anyBreaksOut body) (.stmts body)) :
    Ends (!test.isTrue || Stmt.anyBreaksOut body) false (.loop test step body) where
  normal hends := by
    rcases Bool.or_eq_true_iff.mp hends with htest | hbreaks
    · exact .done (free_tests_false (by simpa using htest))
    · exact .left (free_tests_true test) (h.leave hbreaks)
  leave := nofun

/-- A branch ends in each way in which one of its two lists of statements does. -/
theorem Ends.branch {test : Expr} {yes : List Stmt} {no : Option (List Stmt)}
    {completes breaks completes' breaks' : Bool} (htest : test.isTrue = false)
    (hyes : Ends completes breaks (.stmts yes))
    (hno : Ends completes' breaks' (.stmts (no.getD []))) :
    Ends (completes || completes') (breaks || breaks') (.stmt (.branch test yes no)) where
  normal hends := by
    rcases Bool.or_eq_true_iff.mp hends with h | h
    · exact .yes (free_tests_true test) (hyes.normal h)
    · exact .no (free_tests_false htest) (hno.normal h)
  leave hends := by
    rcases Bool.or_eq_true_iff.mp hends with h | h
    · exact .yes (free_tests_true test) (hyes.leave h)
    · exact .no (free_tests_false htest) (hno.leave h)

/-- Statements go on after one that control passes, unless it is the last one. -/
theorem Ends.cons {stmt : Stmt} {rest : List Stmt} {completes breaks : Bool}
    (hreached : (rest.isEmpty || stmt.completes) = true)
    (hstmt : Ends stmt.completes stmt.breaksOut (.stmt stmt))
    (hrest : Ends completes breaks (.stmts rest)) (hempty : rest = [] → breaks = false) :
    Ends (stmt.completes && completes) (stmt.breaksOut || breaks) (.stmts (stmt :: rest)) where
  normal hends := by
    obtain ⟨hfirst, hthen⟩ := Bool.and_eq_true_iff.mp hends
    exact .cons (hstmt.normal hfirst) (hrest.normal hthen)
  leave hends := by
    rcases Bool.or_eq_true_iff.mp hends with h | h
    · exact .stop (hstmt.leave h) nofun
    · have hpasses : stmt.completes = true := by
        refine (Bool.or_eq_true_iff.mp hreached).resolve_left fun hnone => ?_
        rw [hempty (List.isEmpty_iff.mp hnone)] at h
        contradiction
      exact .cons (hstmt.normal hpasses) (hrest.leave h)

mutual

/-- A live statement without decided branches ends in each way that the judgement
admits. -/
theorem ends_of_live : ∀ s : Stmt, s.live = true → s.undecided = true →
    Ends s.completes s.breaksOut (.stmt s)
  | .declare _, _, _ => ⟨fun _ => .declare trivial, nofun⟩
  | .exec _, _, _ => ⟨fun _ => .exec (v := true) fun _ => rfl, nofun⟩
  | .branch test yes no, hlive, hopen => by
    simp only [Stmt.live, Stmt.undecided, Bool.and_eq_true, Bool.not_eq_true'] at hlive hopen
    exact .branch hopen.1.1 (ends_of_allLive yes hlive.1.2 hopen.1.2)
      (ends_of_bodyLive no hlive.2 hopen.2)
  | .whileLoop test body, hlive, hopen => by
    simp only [Stmt.live, Stmt.undecided, Bool.and_eq_true] at hlive hopen
    have hloop := Ends.loop test [] (ends_of_allLive body hlive.2 hopen)
    exact ⟨fun h => .whileLoop (hloop.normal h), nofun⟩
  | .forLoop init test step body, hlive, hopen => by
    simp only [Stmt.live, Stmt.undecided, Bool.and_eq_true] at hlive hopen
    have hloop := Ends.loop test step (ends_of_allLive body hlive.2 hopen)
    exact ⟨fun h => .forLoop (free_declaresAll init) (hloop.normal h), nofun⟩
  | .leave, _, _ => ⟨nofun, fun _ => .leave⟩
  | .ret _, _, _ => ⟨nofun, nofun⟩
  | .block body, hlive, hopen => by
    have hbody := ends_of_allLive body hlive hopen
    exact ⟨fun h => .block (hbody.normal h), fun h => .block (hbody.leave h)⟩

theorem ends_of_allLive : ∀ ss : List Stmt, Stmt.allLive ss = true →
    Stmt.allUndecided ss = true → Ends (Stmt.allComplete ss) (Stmt.anyBreaksOut ss) (.stmts ss)
  | [], _, _ => ⟨fun _ => .nil, nofun⟩
  | s :: ss, hlive, hopen => by
    simp only [Stmt.allLive, Stmt.allUndecided, Bool.and_eq_true] at hlive hopen
    refine .cons hlive.1.1 (ends_of_live s hlive.1.2 hopen.1)
      (ends_of_allLive ss hlive.2 hopen.2) ?_
    rintro rfl
    rfl

theorem ends_of_bodyLive : ∀ no : Option (List Stmt), bodyLive no = true →
    Stmt.elseUndecided no = true →
      Ends (Stmt.elseCompletes no) (Stmt.elseBreaksOut no) (.stmts (no.getD []))
  | none, _, _ => ⟨fun _ => .nil, nofun⟩
  | some ss, hlive, hopen => ends_of_allLive ss hlive hopen

end

end Semantics

/-! ## Executions and the judgement -/

/-- Whatever expressions mean, statements end normally only if the judgement says
that control can pass them, and with a break that leaves the loop around them
only if it says that one does.  When the statements are live and no branch is on
the literal `true`, they do end so wherever the judgement says it, given that
tests may turn out either way. -/
theorem reachability_of_execution (body : List Stmt) :
    (∀ {σ V : Type} (sem : Semantics σ V) (s s' : σ),
      (sem.Runs (.stmts body) s .normal s' → Stmt.allComplete body = true) ∧
        (sem.Runs (.stmts body) s .leave s' → Stmt.anyBreaksOut body = true)) ∧
    (Stmt.allLive body = true → Stmt.allUndecided body = true →
      (Stmt.allComplete body = true → Semantics.free.Runs (.stmts body) () .normal ()) ∧
        (Stmt.anyBreaksOut body = true → Semantics.free.Runs (.stmts body) () .leave ())) := by
  refine ⟨fun sem s s' => ⟨fun h => h.admits, fun h => h.admits⟩, fun hlive hopen => ?_⟩
  have hends := Semantics.ends_of_allLive body hlive hopen
  exact ⟨hends.normal, hends.leave⟩

/-- A loop without end, left by a break under a test; an inner loop has a break of
its own. -/
def searchLoop : List Stmt :=
  [.whileLoop (.bool true)
    [.branch (.ident "found") [.leave] none, .whileLoop (.ident "more") [.leave]]]

/-- The loop can be left, so control can pass it, and its body can leave it. -/
theorem searchLoop_passed :
    Semantics.free.Runs (.stmts searchLoop) () .normal () ∧
      Stmt.allComplete searchLoop = true ∧ Stmt.allLive searchLoop = true ∧
      Stmt.allUndecided searchLoop = true :=
  have hruns : Semantics.free.Runs (.stmts searchLoop) () .normal () :=
    .cons (.whileLoop (.left (Semantics.free_tests_true _)
      (.stop (.yes (Semantics.free_tests_true _) (.stop .leave nofun)) nofun))) .nil
  have hjudged := reachability_of_execution searchLoop
  ⟨hruns, (hjudged.1 Semantics.free () ()).1 hruns, by decide, by decide⟩

end TreeLowering.Target
