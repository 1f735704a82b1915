import TreeLowering.Proofs.Isolation
set_option autoImplicit false

/-!
# Proofs: where problems are reported

A problem is reported where the lowering stands.  Only statements move it, and
nothing moves it back: after a body it stands at the statement that was lowered
last.  A function stands at its body while its parameters are lowered and its way
to return is chosen, so that their problems are reported there.  Its result type,
and all further parameter lists, are lowered after the body, and their problems are
reported at that last statement.
-/

namespace TreeLowering

/-! ## Where the lowering stands -/

namespace Tree

mutual

/-- Where the lowering stands after a statement: at the last statement inside, else
at the statement itself. -/
def Stmt.lastSpan : Stmt → Span
  | .declare span _ _ _ | .assign span _ _ | .eval span _ | .ret span _ | .leave span => span
  | .branch span _ yes no => elseLastSpan no (bodyLastSpan yes span)
  | .loop span _ body | .block span body => bodyLastSpan body span
  | .each span _ _ body no => elseLastSpan no (bodyLastSpan body span)

/-- Where the lowering stands after statements, given where it stood before. -/
def bodyLastSpan : List Stmt → Span → Span
  | [], before => before
  | stmt :: rest, _ => bodyLastSpan rest stmt.lastSpan

/-- Where the lowering stands after another branch, if there is one. -/
def elseLastSpan : Option (List Stmt) → Span → Span
  | none, before => before
  | some body, before => bodyLastSpan body before

end

/-- Where the lowering of a function stands after the body. -/
def Function.lastSpan (f : Function) : Span := bodyLastSpan f.body f.span

end Tree

namespace LowerState

/-- Notes change nothing but the problems met and the declaration names asked for. -/
theorem addNotes_eq (s : LowerState) (notes : List Note) :
    s.addNotes notes =
      { s with problems := (s.addNotes notes).problems, table := (s.addNotes notes).table } := by
  induction notes generalizing s with
  | nil => rfl
  | cons n ns ih =>
    have hrest := ih (s.addNote n)
    cases n <;> exact hrest

theorem addNotes_span (s : LowerState) (notes : List Note) : (s.addNotes notes).span = s.span := by
  rw [addNotes_eq]

/-- What a type lowering notes is reported at the current position. -/
theorem addNotes_problems (s : LowerState) (notes : List Note) :
    ∃ ps, (s.addNotes notes).problems = s.problems ++ ps ∧ ∀ p ∈ ps, p.span = s.span := by
  induction notes generalizing s with
  | nil => exact ⟨[], (List.append_nil _).symm, fun _ hp => absurd hp List.not_mem_nil⟩
  | cons n ns ih =>
    obtain ⟨ps, hps, hspan⟩ := ih (s.addNote n)
    cases n with
    | missingArgument owner param =>
      refine ⟨⟨.missingTypeArgument owner param, s.span⟩ :: ps, ?_, List.forall_mem_cons.mpr
        ⟨rfl, hspan⟩⟩
      exact hps.trans (List.append_assoc _ _ _)
    | named d spelling => exact ⟨ps, hps, hspan⟩

end LowerState

namespace Lowering

variable {α β : Type} {moves reports : Prop}

/-! ## What a lowering records -/

/-- The problems that the computation adds to those of a state. -/
def recorded (x : Lowering α) (s : LowerState) : List Problem :=
  (x.runFrom s).2.problems.drop s.problems.length

theorem recorded_eq {x : Lowering α} {s : LowerState} {ps : List Problem}
    (h : (x.runFrom s).2.problems = s.problems ++ ps) : recorded x s = ps := by
  rw [recorded, h, List.drop_left]

namespace Isolated

variable {x : Lowering α}

/-- What is recorded depends neither on the problems met before nor on the declaration
names asked for. -/
theorem problems_eq_append (hx : Isolated x) (s : LowerState) (problems : List Problem)
    (table : NameTable) :
    (x.runFrom { s with problems := problems, table := table }).2.problems =
      problems ++ (x.runFrom { s with problems := [] }).2.problems := by
  obtain ⟨table', hrun⟩ := hx { s with problems := [] } problems table
  have hstart : ({ s with problems := [] } : LowerState).afterOthers problems table =
      { s with problems := problems, table := table } := by
    simp only [LowerState.afterOthers, List.append_nil]
  rw [← hstart, hrun]
  rfl

theorem recorded_eq (hx : Isolated x) (s : LowerState) (problems : List Problem)
    (table : NameTable) :
    recorded x { s with problems := problems, table := table } = recorded x s :=
  (Lowering.recorded_eq (hx.problems_eq_append s problems table)).trans
    (Lowering.recorded_eq (hx.problems_eq_append s s.problems s.table)).symm

/-- What is recorded comes after the problems met before. -/
theorem problems_eq (hx : Isolated x) (s : LowerState) :
    (x.runFrom s).2.problems = s.problems ++ recorded x s := by
  have hproblems := hx.problems_eq_append s s.problems s.table
  rw [Lowering.recorded_eq hproblems]
  exact hproblems

end Isolated

/-- What the first of two computations records comes before what the second one does. -/
theorem recorded_bind {x : Lowering α} {f : α → Lowering β} (hx : Isolated x)
    (hf : ∀ a, Isolated (f a)) {s t : LowerState} {a : α} (ha : Yields x s a t) :
    recorded (x >>= f) s = recorded x s ++ recorded (f a) t := by
  have hrun : (x >>= f).runFrom s = (f a).runFrom t := by
    rw [runFrom_bind, ha]
  have ht : t.problems = s.problems ++ recorded x s := by
    rw [← hx.problems_eq, ha]
  apply recorded_eq
  rw [hrun, (hf a).problems_eq, ht, List.append_assoc]

/-- What follows a defect records nothing. -/
theorem recorded_bind_of_defect {x : Lowering α} {f : α → Lowering β} {s : LowerState}
    (hx : ∀ a t, ¬ Yields x s a t) : recorded (x >>= f) s = recorded x s := by
  unfold recorded
  rw [runFrom_bind]
  cases hrun : x.runFrom s with
  | mk r t =>
    cases r with
    | error e => rfl
    | ok a => exact absurd hrun (hx a t)

/-- The computation changes nothing but the problems met and the declaration names asked
for. -/
def OnlyNotes (x : Lowering α) : Prop :=
  ∀ ⦃s a t⦄, Yields x s a t → t = { s with problems := t.problems, table := t.table }

namespace OnlyNotes

theorem pure (a : α) : OnlyNotes (Pure.pure a) := by
  intro s b t h
  obtain ⟨-, rfl⟩ := yields_pure.mp h
  rfl

theorem bind {x : Lowering α} {f : α → Lowering β} (hx : OnlyNotes x)
    (hf : ∀ a, OnlyNotes (f a)) :
    OnlyNotes (x >>= f) := by
  intro s b u h
  obtain ⟨a, t, ha, hb⟩ := yields_bind.mp h
  have hu := hf a hb
  rw [hx ha] at hu
  exact hu

theorem ofType (x : TypeLowering α) : OnlyNotes (liftM x) := by
  intro s a t h
  obtain ⟨notes, -, rfl⟩ := yields_ofType.mp h
  exact s.addNotes_eq notes

end OnlyNotes

/-! ## Where a lowering ends -/

/-- The computation yields nothing but at a position that depends on where it
starts. -/
def EndsAt (g : Span → Span) (x : Lowering α) : Prop :=
  ∀ ⦃s a s'⦄, Yields x s a s' → s'.span = g s.span

namespace EndsAt

variable {g h : Span → Span} {x : Lowering α}

theorem pure (a : α) : EndsAt id (Pure.pure a : Lowering α) := by
  intro s b s' hb
  obtain ⟨-, rfl⟩ := yields_pure.mp hb
  rfl

theorem bind {f : α → Lowering β} (hx : EndsAt g x) (hf : ∀ a, EndsAt h (f a)) :
    EndsAt (h ∘ g) (x >>= f) := by
  intro s b s' hb
  obtain ⟨a, t, ha, hb⟩ := yields_bind.mp hb
  rw [hf a hb, hx ha]
  rfl

theorem ofType (x : TypeLowering α) : EndsAt id (liftM x) := by
  intro s a s' h
  obtain ⟨notes, -, rfl⟩ := yields_ofType.mp h
  exact s.addNotes_span notes

theorem reads (f : LowerState → α) : EndsAt id (Lowering.reads f) := by
  intro s a s' h
  obtain ⟨-, rfl⟩ := yields_reads.mp h
  rfl

theorem moveTo (span : Span) : EndsAt (fun _ => span) (Lowering.moveTo span) := by
  intro s a s' h
  obtain rfl := yields_change.mp h
  rfl

theorem withLoopGuard {guard : Option String} (hx : EndsAt g x) :
    EndsAt g (Lowering.withLoopGuard guard x) := by
  intro s a s' h
  obtain ⟨t, ha, rfl⟩ := yields_withLoopGuard.mp h
  have hspan := hx ha
  exact hspan

theorem withReturns {returns : ReturnForm} (hx : EndsAt g x) :
    EndsAt g (Lowering.withReturns returns x) := by
  intro s a s' h
  obtain ⟨t, ha, rfl⟩ := yields_withReturns.mp h
  have hspan := hx ha
  exact hspan

theorem withReplacement {name other : String} (hx : EndsAt g x) :
    EndsAt g (Lowering.withReplacement name other x) := by
  intro s a s' h
  obtain ⟨t, ha, rfl⟩ := yields_withReplacement.mp h
  have hspan := hx ha
  exact hspan

end EndsAt

theorem guarded_endsAt {g : Span → Span} (narrowed : Option Narrowed)
    {block : Lowering (List Target.Stmt)} (hblock : EndsAt g block) :
    EndsAt g (guarded narrowed block) := by
  cases narrowed with
  | none => exact hblock
  | some n => exact hblock.withReplacement.bind fun _ => .pure _

/-- A computation that does not move ends where it starts. -/
theorem Composed.endsAt {x : Lowering α} (h : Composed False reports x) : EndsAt id x := by
  induction h with
  | pure a => exact .pure a
  | bind _ _ hx hf => exact hx.bind hf
  | ofType x => exact .ofType x
  | reads f _ => exact .reads f
  | fail e => exact fun _ _ _ h => (not_yields_fail h).elim
  | requireSubject name => exact fun s a s' h => congrArg (fun out => out.2.span) h.symm
  | fresh _ | problemAt _ _ _ | keepLocal _ _ =>
    intro s a s' h
    cases h
    rfl
  | moveTo h _ => exact h.elim
  | withLoopGuard _ _ hx => exact hx.withLoopGuard
  | withReturns _ _ hx => exact hx.withReturns
  | withReplacement _ _ _ hx => exact hx.withReplacement

/-- A computation that neither moves nor reports at a position of its own records
problems where it starts. -/
theorem Composed.span_of_recorded {x : Lowering α} (h : Composed False False x) :
    ∀ s, ∀ p ∈ recorded x s, p.span = s.span := by
  have hnone : ∀ {γ : Type} {y : Lowering γ} {s : LowerState},
      (y.runFrom s).2.problems = s.problems → ∀ p ∈ recorded y s, p.span = s.span := by
    intro γ y s hsame p hp
    rw [recorded_eq (hsame.trans (List.append_nil _).symm)] at hp
    exact absurd hp List.not_mem_nil
  induction h with
  | pure _ | reads _ _ | fail _ | requireSubject _ | fresh _ | keepLocal _ _ =>
    exact fun s => hnone rfl
  | @bind _ _ x f hx hf ihx ihf =>
    intro s p hp
    by_cases hyields : ∃ a t, Yields x s a t
    · obtain ⟨a, t, ha⟩ := hyields
      rw [recorded_bind hx.isolated (fun a => (hf a).isolated) ha] at hp
      rcases List.mem_append.mp hp with hfirst | hnext
      · exact ihx s p hfirst
      · exact (ihf a t p hnext).trans (hx.endsAt ha)
    · rw [recorded_bind_of_defect fun a t ha => hyields ⟨a, t, ha⟩] at hp
      exact ihx s p hp
  | ofType x =>
    cases x with
    | none => exact fun s => hnone rfl
    | some found =>
      intro s p hp
      obtain ⟨ps, hps, hspan⟩ := s.addNotes_problems found.2
      have hrecorded : recorded (Lowering.ofType (some found)) s = ps := recorded_eq hps
      exact hspan p (hrecorded ▸ hp)
  | problemAt h _ _ | moveTo h _ => exact h.elim
  | withLoopGuard guard _ hx => exact fun s => hx { s with loopGuard := guard }
  | withReturns returns _ hx => exact fun s => hx { s with returns := some returns }
  | withReplacement name other _ hx =>
    exact fun s => hx { s with names := (s.names.replace name other).2 }

end Lowering

namespace Env

open Lowering

variable (env : Env)

/-! ## Statements -/

mutual

theorem lowerStmt_endsAt : ∀ stmt : Tree.Stmt, EndsAt (fun _ => stmt.lastSpan) (env.lowerStmt stmt)
  | .declare span var init isVariable => by
    simp only [lowerStmt]
    exact (EndsAt.moveTo span).bind fun _ =>
      ((env.declareLocal_composed var init isVariable).bind fun _ =>
        .pure _).endsAt
  | .assign span target value => by
    simp only [lowerStmt]
    exact (EndsAt.moveTo span).bind fun _ =>
      ((env.assignTo_composed target value).bind fun _ => .pure _).endsAt
  | .eval span e => by
    simp only [lowerStmt]
    exact (EndsAt.moveTo span).bind fun _ =>
      ((env.lowerExpr_composed e _).bind fun _ => .pure _).endsAt
  | .ret span value => by
    simp only [lowerStmt]
    exact (EndsAt.moveTo span).bind fun _ =>
      ((Composed.reads _ fun _ _ _ => rfl).bind fun _ =>
        (env.returnValue_composed _ value).bind fun _ => .pure _).endsAt
  | .leave span => by
    simp only [lowerStmt]
    exact (EndsAt.moveTo span).bind fun _ =>
      (EndsAt.reads _).bind fun _ => .pure _
  | .branch span test yes no => by
    simp only [lowerStmt, Tree.Stmt.lastSpan]
    exact (EndsAt.moveTo span).bind fun _ =>
      (env.lowerCondition_composed test).endsAt.bind fun c =>
        (guarded_endsAt c.narrowed (lowerStmts_endsAt yes)).bind fun _ =>
          (lowerElse_endsAt no).bind fun _ => .pure _
  | .loop span test body => by
    simp only [lowerStmt, Tree.Stmt.lastSpan]
    have hinside := (env.lowerCondition_composed test).endsAt.bind fun c =>
      (guarded_endsAt c.narrowed (lowerStmts_endsAt body)).bind fun lowered =>
        EndsAt.pure (c.loop lowered)
    exact (EndsAt.moveTo span).bind fun _ => hinside.withLoopGuard.bind fun _ => .pure _
  | .each span binding subject body no => by
    simp only [lowerStmt, Tree.Stmt.lastSpan]
    have hinside := (env.loopHead_composed binding subject).endsAt.bind fun head =>
      (lowerStmts_endsAt body).bind fun lowered => EndsAt.pure (head.loop lowered)
    exact (EndsAt.moveTo span).bind fun _ => (loopGuard_composed _).endsAt.bind fun _ =>
      hinside.withLoopGuard.bind fun _ => (lowerElse_endsAt no).bind fun _ => .pure _
  | .block span body => by
    simp only [lowerStmt, Tree.Stmt.lastSpan]
    exact (EndsAt.moveTo span).bind fun _ => (lowerStmts_endsAt body).bind fun _ => .pure _

theorem lowerStmts_endsAt :
    ∀ body : List Tree.Stmt, EndsAt (Tree.bodyLastSpan body) (env.lowerStmts body)
  | [] => by
    simp only [lowerStmts]
    exact .pure _
  | stmt :: rest => by
    simp only [lowerStmts]
    exact (lowerStmt_endsAt stmt).bind fun _ => (lowerStmts_endsAt rest).bind fun _ => .pure _

theorem lowerElse_endsAt :
    ∀ no : Option (List Tree.Stmt), EndsAt (Tree.elseLastSpan no) (env.lowerElse no)
  | none => by
    simp only [lowerElse]
    exact .pure _
  | some body => by
    simp only [lowerElse]
    exact (lowerStmts_endsAt body).bind fun _ => .pure _

end

/-! ## Functions -/

/-- What is known of a method before its body is lowered. -/
structure Opening where
  typeParams : List Target.TypeParam
  params : List Target.Param
  /-- How the body returns. -/
  returns : ReturnForm

/-- Lowers the types that the body of a function needs: its type parameters, the parameters
of its first list, and its result, when no other list follows. -/
def openingTypes (f : Tree.Function) (result : Ty) (first : List Parameter)
    (rest : List (List Parameter)) : Lowering Opening := do
  let typeParams ← env.lowerTypeParams (env.model.decl f.decl).typeParams
  let params ← env.methodParams first
  if rest.isEmpty then do
    let form ← env.valueForm result
    pure ⟨typeParams, params, ⟨form, false⟩⟩
  else pure ⟨typeParams, params, ⟨.boxed, true⟩⟩

/-- Lowers what precedes the body of a function, at the position of the body. -/
def opening (f : Tree.Function) (result : Ty) : Lowering Opening :=
  match (env.model.decl f.decl).paramLists with
  | [] => Lowering.fail (.noParameterLists (env.model.qualifiedName f.decl))
  | first :: rest => do
    Lowering.moveTo f.span
    env.openingTypes f result first rest

/-- Lowers what follows the body of a function: the function values for further parameter
lists, and the result type. -/
def closing (f : Tree.Function) (result : Ty) (o : Opening) (lowered : List Target.Stmt) :
    Lowering Target.Method :=
  let x := env.model.decl f.decl
  let method (ty : Target.Ty) (body : List Target.Stmt) : Target.Method :=
    .mk { isPublic := x.flags.isShared } o.typeParams ty x.name o.params (some body)
  if x.paramLists.tail.isEmpty then do
    let ty ← env.methodResult result
    pure (method ty lowered)
  else do
    let wrapped ← env.wrapLayers result (endWithValue result lowered) x.paramLists.tail
    let ty ← env.lowerType (result.curried x.paramLists.tail) .plain
    pure (method ty wrapped)

/-- A function's body is lowered between its opening and its closing. -/
theorem lowerFunction_eq (f : Tree.Function) (result : Ty) :
    env.lowerFunction f result =
      env.opening f result >>= fun o =>
        withReturns o.returns (env.lowerStmts f.body) >>= env.closing f result o := by
  unfold lowerFunction opening closing
  dsimp only
  cases (env.model.decl f.decl).paramLists with
  | nil => rfl
  | cons first rest =>
    cases rest with
    | nil =>
      simp only [List.isEmpty_nil, if_true, List.tail_cons, openingTypes, plainBody, bind_assoc,
        pure_bind]
    | cons second more =>
      simp only [List.isEmpty_cons, Bool.false_eq_true, if_false, List.tail_cons, openingTypes,
        curriedBody, bind_assoc, pure_bind]

theorem openingTypes_composed {moves reports : Prop} (f : Tree.Function) (result : Ty)
    (first : List Parameter) (rest : List (List Parameter)) :
    Composed moves reports (env.openingTypes f result first rest) := by
  refine (Composed.ofType _).bind fun _ => (Composed.ofType _).bind fun _ => ?_
  split
  · exact (Composed.ofType _).bind fun _ => .pure _
  · exact .pure _

theorem closing_composed {moves reports : Prop} (f : Tree.Function) (result : Ty) (o : Opening)
    (lowered : List Target.Stmt) : Composed moves reports (env.closing f result o lowered) := by
  unfold closing
  dsimp only
  split
  · exact (Composed.ofType _).bind fun _ => .pure _
  · exact (env.wrapLayers_composed _ _ _).bind fun _ =>
      (Composed.ofType _).bind fun _ => .pure _

theorem openingTypes_onlyNotes (f : Tree.Function) (result : Ty) (first : List Parameter)
    (rest : List (List Parameter)) : OnlyNotes (env.openingTypes f result first rest) := by
  refine (OnlyNotes.ofType _).bind fun _ => (OnlyNotes.ofType _).bind fun _ => ?_
  split
  · exact (OnlyNotes.ofType _).bind fun _ => .pure _
  · exact .pure _

theorem opening_isolated (f : Tree.Function) (result : Ty) :
    Isolated (env.opening f result) := by
  unfold opening
  split
  · have hfail : ∀ e, Composed True True (Lowering.fail e : Lowering Opening) := .fail
    exact (hfail _).isolated
  · rename_i first rest _
    have hopening : Composed True True (do
        Lowering.moveTo f.span
        env.openingTypes f result first rest) :=
      (Composed.moveTo trivial f.span).bind fun _ => env.openingTypes_composed f result first rest
    exact hopening.isolated

/-- Before the body, a function changes nothing but the position, the problems met and the
declaration names asked for. -/
theorem state_of_yields_opening {f : Tree.Function} {result : Ty} {s t : LowerState}
    {o : Opening} (h : Yields (env.opening f result) s o t) :
    t = { s with span := f.span, problems := t.problems, table := t.table } := by
  unfold opening at h
  split at h
  · exact (not_yields_fail h).elim
  · obtain ⟨_, u, hmove, htypes⟩ := yields_bind.mp h
    obtain rfl := yields_change.mp hmove
    exact env.openingTypes_onlyNotes f result _ _ htypes

/-- Problems met before the body are reported at the body. -/
theorem span_of_recorded_opening (f : Tree.Function) (result : Ty) (s : LowerState) :
    ∀ p ∈ recorded (env.opening f result) s, p.span = f.span := by
  unfold opening
  split
  · have hnone : ∀ e, recorded (Lowering.fail e : Lowering Opening) s = [] := fun _ =>
      List.drop_length
    rw [hnone]
    exact fun p hp => absurd hp List.not_mem_nil
  · rename_i first rest _
    exact (env.openingTypes_composed f result first rest).span_of_recorded
      { s with span := f.span }

theorem body_isolated (f : Tree.Function) (returns : ReturnForm) :
    Isolated (withReturns returns (env.lowerStmts f.body)) :=
  ((env.lowerStmts_composed f.body).withReturns returns).isolated

theorem closing_isolated (f : Tree.Function) (result : Ty) (o : Opening)
    (lowered : List Target.Stmt) : Isolated (env.closing f result o lowered) :=
  Composed.isolated (env.closing_composed f result o lowered : Composed True True _)

/-- What a function records once its opening has yielded: what its body records, and what
its closing records at the last statement of the body. -/
theorem recorded_bodyAndClosing (f : Tree.Function) (result : Ty) (o : Opening)
    {t : LowerState} (ht : t.span = f.span) :
    ∃ after,
      recorded (withReturns o.returns (env.lowerStmts f.body) >>= env.closing f result o) t =
        recorded (withReturns o.returns (env.lowerStmts f.body)) t ++ after ∧
      ∀ p ∈ after, p.span = f.lastSpan := by
  by_cases hyields : ∃ lowered u, Yields (withReturns o.returns (env.lowerStmts f.body)) t lowered u
  · obtain ⟨lowered, u, hlowered⟩ := hyields
    rw [recorded_bind (env.body_isolated f o.returns) (env.closing_isolated f result o) hlowered]
    refine ⟨_, rfl, fun p hp => ?_⟩
    have hu : u.span = Tree.bodyLastSpan f.body t.span :=
      (env.lowerStmts_endsAt f.body).withReturns hlowered
    rw [(env.closing_composed f result o lowered).span_of_recorded u p hp, hu, ht]
    rfl
  · rw [recorded_bind_of_defect fun lowered u h => hyields ⟨lowered, u, h⟩]
    exact ⟨[], (List.append_nil _).symm, fun p hp => absurd hp List.not_mem_nil⟩

/-- What a function records, in order: the problems of its opening, those of its body, and
those of its closing. -/
theorem recorded_lowerFunction (f : Tree.Function) (result : Ty) (s : LowerState) :
    ∃ inside after,
      recorded (env.lowerFunction f result) s =
        recorded (env.opening f result) s ++ (inside ++ after) ∧
      (∀ o t, Yields (env.opening f result) s o t →
        inside = recorded (withReturns o.returns (env.lowerStmts f.body))
          { s with span := f.span }) ∧
      ∀ p ∈ after, p.span = f.lastSpan := by
  rw [lowerFunction_eq]
  by_cases hyields : ∃ o t, Yields (env.opening f result) s o t
  · obtain ⟨o, t, ho⟩ := hyields
    have ht := env.state_of_yields_opening ho
    obtain ⟨after, hrest, hafter⟩ :=
      env.recorded_bodyAndClosing f result o (congrArg LowerState.span ht)
    have hinside := (env.body_isolated f o.returns).recorded_eq { s with span := f.span }
      t.problems t.table
    rw [← ht] at hinside
    rw [recorded_bind (env.opening_isolated f result)
      (fun o => (env.body_isolated f o.returns).bind (env.closing_isolated f result o)) ho, hrest]
    refine ⟨_, after, rfl, fun o' t' ho' => ?_, hafter⟩
    cases ho.symm.trans ho'
    exact hinside
  · rw [recorded_bind_of_defect fun o t h => hyields ⟨o, t, h⟩]
    exact ⟨[], [], (List.append_nil _).symm, fun o t ho => absurd ⟨o, t, ho⟩ hyields,
      fun p hp => absurd hp List.not_mem_nil⟩

/-- From every state, a function records first the problems of its opening, all of them at
its body; then those of the body, as the body records them on its own; and last those of
its closing, all of them at the last statement of the body.  So all of them are at the
body just when the body's own are, and the closing has none or ends where it started. -/
theorem lowerFunction_problem_positions (f : Tree.Function) (result : Ty) (s : LowerState) :
    ∃ inside after,
      recorded (env.lowerFunction f result) s =
        recorded (env.opening f result) s ++ (inside ++ after) ∧
      (∀ p ∈ recorded (env.opening f result) s, p.span = f.span) ∧
      (∀ o t, Yields (env.opening f result) s o t →
        inside = recorded (withReturns o.returns (env.lowerStmts f.body))
          { s with span := f.span }) ∧
      (∀ p ∈ after, p.span = f.lastSpan) ∧
      ((∀ p ∈ recorded (env.lowerFunction f result) s, p.span = f.span) ↔
        (∀ p ∈ inside, p.span = f.span) ∧ (after = [] ∨ f.lastSpan = f.span)) := by
  obtain ⟨inside, after, hrecorded, hinside, hafter⟩ := env.recorded_lowerFunction f result s
  have hbefore := env.span_of_recorded_opening f result s
  refine ⟨inside, after, hrecorded, hbefore, hinside, hafter, ?_⟩
  rw [hrecorded]
  constructor
  · intro hall
    refine ⟨fun p hp => hall p (List.mem_append_right _ (List.mem_append_left _ hp)), ?_⟩
    cases after with
    | nil => exact .inl rfl
    | cons p ps =>
      have hp := hall p (List.mem_append_right _ (List.mem_append_right _ List.mem_cons_self))
      exact .inr ((hafter p List.mem_cons_self).symm.trans hp)
  · rintro ⟨hin, hend⟩ p hp
    rcases List.mem_append.mp hp with hopening | hrest
    · exact hbefore p hopening
    rcases List.mem_append.mp hrest with hbody | hclosing
    · exact hin p hbody
    rcases hend with rfl | hsame
    · exact absurd hclosing List.not_mem_nil
    · exact (hafter p hclosing).trans hsame

/-! ## A result type reported inside the body -/

/-- `class Pair<First, Second>()` and `Pair<String> f() { return; }`, whose result type has
no argument for `Second`. -/
def unfilledModel : Model where
  decls := #[
    { Declaration.bare "Pair" .cls "demo" none with
      typeParams := [⟨10⟩, ⟨11⟩], extended := some Language.identifiableTy },
    { Declaration.bare "f" .method "demo" none with
      ty := some (.of ⟨22⟩ [Language.stringTy]), paramLists := [[]] }]
  params := #[⟨"First", .invariant, [], ⟨22⟩, false⟩, ⟨"Second", .invariant, [], ⟨22⟩, false⟩]

/-- The function's tree, with a body from 3 to 20 and the return from 5 to 9. -/
def unfilledFunction : Tree.Function := ⟨⟨23⟩, [.ret ⟨5, 9⟩ none], ⟨3, 20⟩⟩

/-- The body records no problem on its own.  The missing argument is reported at the body
while the way to return is chosen, and at the return when the result type is lowered. -/
theorem unfilledResult_reported_inside :
    (∀ returns, recorded
      (withReturns returns ((Env.of unfilledModel .standard).lowerStmts unfilledFunction.body))
      (.start .empty) = []) ∧
    (recorded ((Env.of unfilledModel .standard).lowerFunction unfilledFunction
      (unfilledModel.resultType ⟨23⟩)) (.start .empty)).map Problem.span =
        [unfilledFunction.span, unfilledFunction.span, ⟨5, 9⟩] ∧
    ¬ ∀ p ∈ recorded ((Env.of unfilledModel .standard).lowerFunction unfilledFunction
      (unfilledModel.resultType ⟨23⟩)) (.start .empty), p.span = unfilledFunction.span :=
  ⟨fun _ => rfl, by decide, by decide⟩

end Env

end TreeLowering
