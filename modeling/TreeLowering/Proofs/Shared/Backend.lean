import TreeLowering.Proofs.Reporting
import TreeLowering.Proofs.Shared.Method
set_option autoImplicit false

/-!
# Proofs: backends with shared tables

A backend with tables stands for one that lowers among types and texts, and does so
still after a function was lowered: it reports the same diagnostics, and the method that
it yields reads as the method that the other yields.
-/

namespace TreeLowering.Shared

open Tables Tabled
open TreeLowering.Shared.Lowering (Tracks)

namespace Tables

variable {t : Tables} {m : Model} {M : TreeLowering.Model}

/-! ## Reporting -/

section Problems

variable {k : ProblemKind} {K : TreeLowering.ProblemKind} {p : Problem} {P : TreeLowering.Problem}

theorem HasKind.message (h : t.HasKind k K) (hm : t.HasModel m M) :
    Says t (k.message m) (K.message M) := by
  cases h with
  | notAFunction => exact Tells.pure rfl
  | notIterable hi =>
    exact (hm.display hi).map fun _ _ _ _ hshown =>
      congrArg (fun shown => "cannot iterate over `" ++ shown ++ "`") hshown
  | missingTypeArgument hi hn =>
    refine (hm.display hi).bind fun u shown hu _ hshown => ?_
    refine (Tells.textOf (hn.mono hu)).bind fun v name _ _ hname => Tells.pure ?_
    obtain rfl := hshown
    obtain rfl := hname
    rfl

theorem HasKind.code_eq (h : t.HasKind k K) : k.code = K.code := by cases h <;> rfl

theorem HasKind.label_eq (h : t.HasKind k K) : k.label = K.label := by cases h <;> rfl

theorem HasProblem.diagnostic (h : t.HasProblem p P) (hm : t.HasModel m M) :
    Says t (p.diagnostic m) (P.diagnostic M) := by
  refine (h.kind.message hm).map fun u message _ _ hmessage => ?_
  obtain rfl := hmessage
  rw [h.kind.code_eq, h.kind.label_eq, h.span]
  rfl

theorem Each.same_eq {α : Type} {as bs : List α} (h : Each Same t as bs) : as = bs :=
  List.forall₂_eq_eq_eq ▸ h

theorem Each.diagnostics {ps : List Problem} {Ps : List TreeLowering.Problem}
    (hps : Each HasProblem t ps Ps) (hm : t.HasModel m M) :
    Says t (each (·.diagnostic m) ps) (Ps.map (·.diagnostic M)) :=
  (Tells.each hps fun _ _ hp => hp.diagnostic hm).imp fun _ _ h => h.same_eq

end Problems

/-- The method, or the defect that a lowering ended with. -/
inductive HasOutcome (t : Tables) : Except LowerError Target.Method →
    Except LowerError TreeLowering.Target.Method → Prop where
  | defect {e : LowerError} (he : e ≠ .endlessType) : HasOutcome t (.error e) (.error e)
  | method {a : Target.Method} {b : TreeLowering.Target.Method} (h : t.PrintsMethod a b) :
      HasOutcome t (.ok a) (.ok b)

/-- What the lowering of a function yielded, in the tables. -/
structure HasYield (M : TreeLowering.Model) (t : Tables) (x : Lowered)
    (X : TreeLowering.Lowered) : Prop where
  outcome : t.HasOutcome x.outcome X.outcome
  problems : x.problems = X.problems.map (·.diagnostic M)

instance : Stays HasOutcome where
  mono h hu := by
    cases h with
    | defect he => exact .defect he
    | method h => exact .method (Stays.mono h hu)

instance : Stays (HasYield M) := ⟨fun h hu => ⟨Stays.mono h.outcome hu, h.problems⟩⟩

namespace HasYield

variable {x : Lowered} {X : TreeLowering.Lowered} {f : Tree.Function}
  {F : TreeLowering.Tree.Function}

theorem diagnostics_eq (h : HasYield M t x X) (hspan : f.span = F.span) :
    x.diagnostics f = X.diagnostics M F := by
  unfold Lowered.diagnostics TreeLowering.Lowered.diagnostics
  rw [h.problems, hspan]
  obtain ⟨houtcome, -⟩ := h
  generalize x.outcome = o, X.outcome = O at houtcome
  cases houtcome <;> rfl

/-- The method over the tables reads as the one among texts, so that what is known of
lowered code, its fresh names included, is known of this one. -/
theorem method?_read (h : HasYield M t x X) :
    x.method?.map (Target.Method.read t.names) = X.method? := by
  unfold Lowered.method? TreeLowering.Lowered.method?
  obtain ⟨houtcome, -⟩ := h
  generalize x.outcome = o, X.outcome = O at houtcome
  cases houtcome with
  | defect _ => rfl
  | method h => exact congrArg some (h t (.refl t))

theorem ne_endless (h : HasYield M t x X) : X.outcome ≠ .error .endlessType := by
  intro hendless
  have houtcome := h.outcome
  rw [hendless] at houtcome
  generalize x.outcome = o at houtcome
  cases houtcome with
  | defect he => exact he rfl

end HasYield

end Tables

/-! ## Lowering one function after the other -/

namespace Backend

/-- The backend stands for one that lowers among types and texts. -/
structure Reads (b : Backend) (B : TreeLowering.Backend) : Prop where
  sound : b.tables.Sound
  env : b.tables.HasEnv b.env B.env
  cached : ∀ e ∈ b.cache, b.tables.HasName e.2 (B.env.model.spelling e.1.1 e.1.2)
  keys : B.table.keys = (b.cache.map Prod.fst).reverse
  queue : b.queue = B.queue

/-- What came of lowering a function: there was no room, or no end, or both backends
have an answer and stand for each other again. -/
inductive Answers (t : Tables) (B : TreeLowering.Backend) (F : TreeLowering.Tree.Function) :
    Except Halt (Lowered × Backend) → Prop where
  | full {u : Tables} (hfull : u.Full) : Answers t B F (.error (.full u))
  | endless (h : (B.env.lowerAlone B.table F).outcome = .error .endlessType) :
      Answers t B F (.error .endless)
  | answer {x : Lowered} {after : Backend} (hgrown : t.Within after.tables)
      (hreads : after.Reads (B.lowerFunction F).2)
      (hyield : HasYield B.env.model after.tables x (B.env.lowerAlone B.table F)) :
      Answers t B F (.ok (x, after))

/-- What came of lowering functions one after the other: there was no room, or no end to
one of them, or both backends have the answers and stand for each other again. -/
inductive AnswersEach (t : Tables) (B : TreeLowering.Backend)
    (Fs : List TreeLowering.Tree.Function) : Except Halt (List Lowered × Backend) → Prop where
  | full {u : Tables} (hfull : u.Full) : AnswersEach t B Fs (.error (.full u))
  | endless {X : TreeLowering.Lowered} (hX : X ∈ B.lowerings Fs)
      (h : X.outcome = .error .endlessType) : AnswersEach t B Fs (.error .endless)
  | answer {xs : List Lowered} {after : Backend} (hgrown : t.Within after.tables)
      (hreads : after.Reads (B.lowerEach Fs).2)
      (hyields : Each (HasYield B.env.model) after.tables xs (B.lowerings Fs)) :
      AnswersEach t B Fs (.ok (xs, after))

variable {b : Backend} {B : TreeLowering.Backend} {f : Tree.Function}
  {F : TreeLowering.Tree.Function}

theorem lower_of_error {h : Halt}
    (hrun : (b.env.lowerWhole f).runFrom (.start b.tables b.cache) = .error h) :
    b.lower f = .error h := by
  unfold Backend.lower
  rw [hrun]
  rfl

namespace Reads

theorem start (h : b.Reads B) :
    (State.start b.tables b.cache).Reads B.env.model (.start B.table) where
  sound := h.sound
  within := fun _ he => absurd he List.not_mem_nil
  scope := rfl
  drawn := fun k hk => absurd hk (Nat.not_lt_zero k)
  loopGuard := .none
  span := rfl
  problems := .nil
  returns := rfl
  locals := .nil
  cached := h.cached
  keys := h.keys

/-- What is left to do when the run has ended. -/
theorem report (h : b.Reads B) (hf : b.tables.HasFunction f F)
    {outcome : Except LowerError Target.Method} {s : State}
    {Outcome : Except LowerError TreeLowering.Target.Method} {S : LowerState}
    (hrun : (b.env.lowerWhole f).runFrom (.start b.tables b.cache) = .ok (outcome, s))
    (hRun : B.env.lowerAlone B.table F = ⟨Outcome, S.problems, S.table⟩)
    (hgrown : b.tables.Within s.tables) (hs : s.Reads B.env.model S)
    (houtcome : s.tables.HasOutcome outcome Outcome) : Answers b.tables B F (b.lower f) := by
  have henv := h.env.mono hgrown
  have hends := hs.problems.diagnostics henv.model s.tables (.refl _) hs.sound
  have hlower : b.lower f =
      (each (·.diagnostic b.env.model) s.problems s.tables).bind fun out =>
        .ok (⟨outcome, out.1⟩, ⟨b.env, out.2, s.cache,
          b.queue.pushAll (Lowered.diagnostics f ⟨outcome, out.1⟩)⟩) := by
    unfold Backend.lower
    rw [hrun]
    rfl
  rw [hlower]
  generalize each (·.diagnostic b.env.model) s.problems s.tables = out at hends
  match out, hends with
  | .error _, ⟨_, hfull, rfl⟩ => exact .full hfull
  | .ok (problems, u), ⟨hu, hsound, hproblems⟩ =>
    have hyield : HasYield B.env.model u ⟨outcome, problems⟩ (B.env.lowerAlone B.table F) := by
      rw [hRun]
      exact ⟨Stays.mono houtcome hu, hproblems⟩
    refine .answer (hgrown.trans hu) ?_ hyield
    exact
      { sound := hsound
        env := henv.mono hu
        cached := fun e he => (hs.cached e he).mono hu
        keys := by
          show (B.env.lowerAlone B.table F).table.keys = _
          rw [hRun]
          exact hs.keys
        queue := by
          show b.queue.pushAll _ = B.queue.pushAll _
          rw [h.queue, hyield.diagnostics_eq hf.span] }

theorem lower (h : b.Reads B) (hf : b.tables.HasFunction f F) :
    Answers b.tables B F (b.lower f) := by
  have hends := h.env.lowerWhole hf (.start b.tables b.cache) (.start B.table) (.refl _) h.start
  cases hRun : (B.env.lowerFunction F (B.env.model.resultType F.decl)).runFrom (.start B.table) with
  | mk Outcome S =>
    have halone : B.env.lowerAlone B.table F = ⟨Outcome, S.problems, S.table⟩ := by
      rw [TreeLowering.Env.lowerAlone, hRun]
    generalize hrun : (b.env.lowerWhole f).runFrom (.start b.tables b.cache) = out at hends
    rw [hRun] at hends
    cases hends with
    | full hfull =>
      rw [lower_of_error hrun]
      exact .full hfull
    | endless =>
      rw [lower_of_error hrun]
      exact .endless (by rw [halone])
    | fail he hgrown hs => exact h.report hf hrun halone hgrown hs (.defect he)
    | answer hgrown hs hmethod => exact h.report hf hrun halone hgrown hs (.method hmethod)

/-- A run over several functions stands for the other run, and its answers for the
answers of the other. -/
theorem lowerEach {fs : List Tree.Function} {Fs : List TreeLowering.Tree.Function}
    (h : b.Reads B) (hfs : Each HasFunction b.tables fs Fs) :
    AnswersEach b.tables B Fs (b.lowerEach fs) := by
  induction Fs generalizing b B fs with
  | nil =>
    cases hfs
    exact .answer (.refl _) h .nil
  | cons F Fs ih =>
    cases hfs with
    | @cons f _ fs _ hf hfs =>
      have hfirst := h.lower hf
      have hstep : b.lowerEach (f :: fs) = (b.lower f).bind fun out =>
          (out.2.lowerEach fs).map fun rest => (out.1 :: rest.1, rest.2) := rfl
      rw [hstep]
      generalize b.lower f = out at hfirst
      cases hfirst with
      | full hfull => exact .full hfull
      | endless hendless => exact .endless List.mem_cons_self hendless
      | @answer x next hgrown hnext hx =>
        have hrest := ih hnext (Stays.mono (S := Each HasFunction) hfs hgrown)
        show AnswersEach b.tables B (F :: Fs)
          ((next.lowerEach fs).map fun rest => (x :: rest.1, rest.2))
        generalize next.lowerEach fs = out at hrest
        cases hrest with
        | full hfull => exact .full hfull
        | endless hX hendless => exact .endless (List.mem_cons_of_mem _ hX) hendless
        | answer hlater hlast hys =>
          exact .answer (hgrown.trans hlater) hlast (.cons (Stays.mono hx hlater) hys)

end Reads

end Backend

end TreeLowering.Shared
