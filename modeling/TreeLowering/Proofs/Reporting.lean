import TreeLowering.Backend
set_option autoImplicit false

/-!
# Proofs: failures are reported

Whatever goes wrong with a function reaches the queue as an error: each of its
problems, and the defect that ends its lowering.  A queue may drop an error
because enough are kept or because it repeats a kept one, so an error is never
dropped by a queue that keeps none.  Hence a run of the backend leaves an empty
queue exactly when nothing went wrong.
-/

namespace TreeLowering

namespace DiagnosticQueue

/-! ## Queues of errors -/

/-- Everything kept is an error, and counted as one. -/
structure OnlyErrors (q : DiagnosticQueue) : Prop where
  errors : ∀ d ∈ q.kept, d.isError = true
  counted : q.errorCount = q.kept.length

namespace OnlyErrors

variable {q : DiagnosticQueue} {d : Diagnostic}

theorem new (limits : QueueLimits) : (DiagnosticQueue.new limits).OnlyErrors where
  errors := by
    intro d hd
    cases hd
  counted := rfl

theorem push (h : q.OnlyErrors) (hd : d.isError = true) : (q.push d).OnlyErrors := by
  unfold DiagnosticQueue.push
  cases haccepts : q.accepts d with
  | false =>
    rw [add_of_not_accepts haccepts]
    exact h
  | true =>
    have hadd : (q.add d).2 = { q with kept := q.kept ++ [d], errorCount := q.errorCount + 1 } := by
      simp [add, haccepts, hd]
    rw [hadd]
    constructor
    · intro e he
      rcases List.mem_append.mp he with he | he
      · exact h.errors e he
      · exact List.mem_singleton.mp he ▸ hd
    · simp [h.counted]

/-- A queue that keeps nothing has room for any error. -/
theorem accepts_of_kept_eq_nil (h : q.OnlyErrors) (hkept : q.kept = []) :
    q.accepts d = true := by
  have hcount : q.errorCount = 0 := by
    rw [h.counted, hkept]
    rfl
  have hlimit : q.limitReached = false := by
    unfold limitReached
    rw [hcount, Bool.and_eq_false_iff, decide_eq_false_iff_not, decide_eq_false_iff_not]
    omega
  have hrepeats : q.repeats d = false := by
    unfold repeats
    rw [hkept]
    rfl
  simp [accepts, hlimit, hrepeats]

/-- The first error is kept, and what is kept stays. -/
theorem kept_push_ne_nil (h : q.OnlyErrors) : (q.push d).kept ≠ [] := by
  unfold DiagnosticQueue.push
  cases haccepts : q.accepts d with
  | true =>
    rw [add_of_accepts haccepts]
    simp
  | false =>
    rw [add_of_not_accepts haccepts]
    intro hkept
    rw [h.accepts_of_kept_eq_nil hkept] at haccepts
    contradiction

/-- After errors are offered, the queue keeps errors, and it keeps none only if
none was offered or kept. -/
theorem pushAll {ds : List Diagnostic} (h : q.OnlyErrors) (hds : ∀ d ∈ ds, d.isError = true) :
    (q.pushAll ds).OnlyErrors ∧ ((q.pushAll ds).kept = [] ↔ q.kept = [] ∧ ds = []) := by
  induction ds generalizing q with
  | nil => exact ⟨h, by simp [DiagnosticQueue.pushAll]⟩
  | cons d ds ih =>
    have hpush : (q.push d).OnlyErrors := h.push (hds d List.mem_cons_self)
    obtain ⟨honly, hkept⟩ := ih hpush (fun e he => hds e (List.mem_cons_of_mem d he))
    refine ⟨honly, ⟨fun hnil => ?_, fun hnil => ?_⟩⟩
    · exact absurd (hkept.mp hnil).1 h.kept_push_ne_nil
    · exact absurd hnil.2 (List.cons_ne_nil d ds)

theorem hasErrors_eq_false_iff (h : q.OnlyErrors) : q.hasErrors = false ↔ q.kept = [] := by
  unfold DiagnosticQueue.hasErrors
  rw [h.counted, decide_eq_false_iff_not, Nat.not_lt, Nat.le_zero, List.length_eq_zero_iff]

end OnlyErrors

end DiagnosticQueue

/-! ## What goes wrong with a function -/

theorem Diagnostic.isError_pointingAt (d : Diagnostic) (span : Span) (message : String) :
    (d.pointingAt span message).isError = d.isError := by
  unfold pointingAt
  split <;> rfl

theorem Problem.isError_diagnostic (m : Model) (p : Problem) : (p.diagnostic m).isError = true :=
  Diagnostic.isError_pointingAt _ _ _

theorem LowerError.isError_diagnostic (body : Span) (e : LowerError) :
    (e.diagnostic body).isError = true :=
  Diagnostic.isError_pointingAt _ _ _

namespace Lowered

variable {m : Model} {f : Tree.Function} {x : Lowered}

theorem isError_of_mem_diagnostics : ∀ d ∈ x.diagnostics m f, d.isError = true := by
  intro d hd
  rcases List.mem_append.mp hd with hd | hd
  · obtain ⟨p, _, rfl⟩ := List.mem_map.mp hd
    exact p.isError_diagnostic m
  · cases houtcome : x.outcome with
    | ok method =>
      rw [houtcome] at hd
      cases hd
    | error e =>
      rw [houtcome] at hd
      exact List.mem_singleton.mp hd ▸ e.isError_diagnostic f.span

/-- A function is reported on unless it has a method and met no problem. -/
theorem diagnostics_eq_nil_iff :
    x.diagnostics m f = [] ↔ x.method?.isSome = true ∧ x.problems = [] := by
  unfold diagnostics method?
  cases x.outcome <;> simp

end Lowered

/-! ## Runs of the backend -/

namespace Backend

/-- What the lowering of each function yields, of functions lowered one after
the other. -/
def lowerings (b : Backend) : List Tree.Function → List Lowered
  | [] => []
  | f :: fs => b.env.lowerAlone b.table f :: (b.lowerFunction f).2.lowerings fs

theorem lowerEach_eq_map (b : Backend) (fs : List Tree.Function) :
    (b.lowerEach fs).1 = (b.lowerings fs).map Lowered.method? := by
  induction fs generalizing b with
  | nil => rfl
  | cons f fs ih =>
    simp only [lowerEach, lowerings, List.map_cons, ih]
    rfl

/-- One function more: the queue keeps errors, and keeps none only if nothing
went wrong with the function either. -/
theorem lowerFunction_kept (b : Backend) (h : b.queue.OnlyErrors) (f : Tree.Function) :
    (b.lowerFunction f).2.queue.OnlyErrors ∧
      ((b.lowerFunction f).2.queue.kept = [] ↔ b.queue.kept = [] ∧
        (b.env.lowerAlone b.table f).method?.isSome = true ∧
          (b.env.lowerAlone b.table f).problems = []) := by
  obtain ⟨honly, hkept⟩ := h.pushAll
    (Lowered.isError_of_mem_diagnostics (m := b.env.model) (f := f)
      (x := b.env.lowerAlone b.table f))
  rw [Lowered.diagnostics_eq_nil_iff] at hkept
  exact ⟨honly, hkept⟩

/-- Any number of functions: the queue keeps errors, and keeps none only if
nothing went wrong with any of them. -/
theorem lowerEach_kept (b : Backend) (h : b.queue.OnlyErrors) (fs : List Tree.Function) :
    (b.lowerEach fs).2.queue.OnlyErrors ∧
      ((b.lowerEach fs).2.queue.kept = [] ↔ b.queue.kept = [] ∧
        ∀ x ∈ b.lowerings fs, x.method?.isSome = true ∧ x.problems = []) := by
  induction fs generalizing b with
  | nil =>
    refine ⟨h, ⟨fun hkept => ⟨hkept, fun x hx => ?_⟩, fun hkept => hkept.1⟩⟩
    cases hx
  | cons f fs ih =>
    obtain ⟨hfirst, hfirstKept⟩ := b.lowerFunction_kept h f
    obtain ⟨honly, hkept⟩ := ih (b.lowerFunction f).2 hfirst
    refine ⟨honly, hkept.trans ?_⟩
    rw [hfirstKept]
    simp only [lowerings, List.forall_mem_cons, and_assoc]

/-- A new backend has nothing to report and no name asked for. -/
theorem eq_of_new {model : Model} {config : Config} {b : Backend}
    (h : Backend.new model config = .ok b) :
    b = ⟨.of model config, .new config.limits, .empty⟩ := by
  unfold Backend.new at h
  split at h
  · contradiction
  · cases h
    rfl

/-- After any functions are lowered, with whatever limit and with or without
repetitions, the backend has errors unless every function has a method and met
no problem.  Without errors there is nothing to report, and with errors there
is an error among what is reported. -/
theorem lowerEach_reports_failures {model : Model} {config : Config} {b : Backend}
    (h : Backend.new model config = .ok b) (fs : List Tree.Function) :
    ((b.lowerEach fs).2.hasErrors = false ↔
        (∀ answer ∈ (b.lowerEach fs).1, answer.isSome = true) ∧
          ∀ x ∈ b.lowerings fs, x.problems = []) ∧
      ((b.lowerEach fs).2.hasErrors = false → (b.lowerEach fs).2.finish = []) ∧
        ((b.lowerEach fs).2.hasErrors = true →
          ∃ d ∈ (b.lowerEach fs).2.finish, d.isError = true) := by
  have hqueue : b.queue = .new config.limits := congrArg queue (eq_of_new h)
  have hnew : b.queue.OnlyErrors := hqueue ▸ .new config.limits
  have hempty : b.queue.kept = [] := by
    rw [hqueue]
    rfl
  obtain ⟨honly, hkept⟩ := b.lowerEach_kept hnew fs
  have herrors := honly.hasErrors_eq_false_iff
  refine ⟨?_, ?_, ?_⟩
  · unfold hasErrors
    rw [herrors, hkept, and_iff_right hempty, lowerEach_eq_map, List.forall_mem_map]
    exact ⟨fun hall => ⟨fun x hx => (hall x hx).1, fun x hx => (hall x hx).2⟩,
      fun hboth x hx => ⟨hboth.1 x hx, hboth.2 x hx⟩⟩
  · intro hnone
    unfold finish DiagnosticQueue.flush
    rw [herrors.mp hnone]
    exact List.mergeSort_nil
  · intro hsome
    have hne : (b.lowerEach fs).2.queue.kept ≠ [] := by
      intro hnil
      rw [hasErrors, herrors.mpr hnil] at hsome
      contradiction
    obtain ⟨d, hd⟩ := List.exists_mem_of_ne_nil _ hne
    exact ⟨d, List.mem_mergeSort.mpr hd, honly.errors d hd⟩

/-- Two declarations that are no functions are lowered by a backend that keeps
one error: one of the two is reported. -/
theorem lowerEach_nonFunctions_reported :
    ∃ b, Backend.new .new ⟨Support.abi, false, ⟨1, true⟩⟩ = .ok b ∧
      ∃ d ∈ (b.lowerEach [⟨Language.string, [], ⟨4, 5⟩⟩, ⟨Language.object, [], .dummy⟩]).2.finish,
        d.isError = true :=
  have hnew : Backend.new .new ⟨Support.abi, false, ⟨1, true⟩⟩ =
      .ok ⟨.of .new ⟨Support.abi, false, ⟨1, true⟩⟩, .new ⟨1, true⟩, .empty⟩ := rfl
  ⟨_, hnew, (lowerEach_reports_failures hnew _).2.2 (by decide)⟩

end Backend

end TreeLowering
