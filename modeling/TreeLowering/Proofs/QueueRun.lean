import TreeLowering.Diagnostic.Queue
import Mathlib.Data.Prod.Lex
import Mathlib.Order.WithBot
set_option autoImplicit false

/-!
# Proofs: runs of a diagnostic queue

A queue is asked to take diagnostics, of which it keeps some, and to hand back
what it kept.  Along every run its count is the number of errors that it keeps,
its limit bounds that number, and nothing that it keeps is a repetition if
repetitions are dropped; what it hands back is all that was kept, sorted by
position and otherwise in order of arrival.

Whether an error is kept is another matter.  An error that is dropped because
the limit is reached leaves errors in the queue, but one that is dropped because
it repeats a kept warning or note may leave none.
-/

namespace TreeLowering

namespace Diagnostic

/-- The place of a diagnostic in a flush: first without a position, then by
start, then by end. -/
def position (d : Diagnostic) : WithBot (ℕ ×ₗ ℕ) :=
  d.primarySpan?.map fun s => toLex (s.start, s.stop)

/-- The diagnostics have the code, the primary span and the message in common. -/
def SaysSame (d e : Diagnostic) : Prop :=
  d.code = e.code ∧ d.primarySpan? = e.primarySpan? ∧ d.message = e.message

end Diagnostic

/-- What a queue is asked for. -/
inductive QueueRequest where
  /-- To take a diagnostic; the answer tells whether it was kept. -/
  | add (d : Diagnostic)
  /-- To take an error; the answer vouches for an error in the queue. -/
  | emit (d : Diagnostic)
  /-- To hand back what was kept. -/
  | flush
  deriving DecidableEq, Repr

namespace DiagnosticQueue

variable {q : DiagnosticQueue} {since : List Diagnostic} {d e : Diagnostic}

/-! ## Repetitions and positions -/

theorem sameReport_iff : sameReport d e = true ↔ d.SaysSame e := by
  simp only [sameReport, Diagnostic.SaysSame, Bool.and_eq_true, beq_iff_eq, and_assoc]

theorem repeats_iff : q.repeats d = true ↔ ∃ e ∈ q.kept, e.SaysSame d := by
  simp only [repeats, List.any_eq_true, sameReport_iff]

theorem limitReached_iff :
    q.limitReached = true ↔ 0 < q.limits.errorLimit ∧ q.limits.errorLimit ≤ q.errorCount := by
  simp only [limitReached, Bool.and_eq_true, decide_eq_true_eq]

theorem reportLe_iff : reportLe d e = true ↔ d.position ≤ e.position := by
  unfold reportLe Diagnostic.position
  cases d.primarySpan? with
  | none => exact iff_of_true rfl bot_le
  | some s =>
    cases e.primarySpan? with
    | none => exact iff_of_false (by simp [positionLe]) (WithBot.not_coe_le_bot _)
    | some t =>
      refine Iff.trans ?_ (WithBot.coe_le_coe (a := toLex (s.start, s.stop))
        (b := toLex (t.start, t.stop))).symm
      rw [Prod.Lex.toLex_le_toLex]
      simp [positionLe]

/-! ## One request -/

/-- The queue after a request. -/
def serve (q : DiagnosticQueue) : QueueRequest → DiagnosticQueue
  | .add d => (q.add d).2
  | .emit d => q.push d
  | .flush => q.flush.2

/-- What was kept since the last flush, given what had been kept before the
request. -/
def record (q : DiagnosticQueue) (since : List Diagnostic) : QueueRequest → List Diagnostic
  | .add d | .emit d => if (q.add d).1 then since ++ [d] else since
  | .flush => []

/-- The queue after several requests. -/
def serveAll (q : DiagnosticQueue) (rs : List QueueRequest) : DiagnosticQueue := rs.foldl serve q

/-- What was kept since the last flush, as the answers to several requests tell. -/
def recordAll (q : DiagnosticQueue) (since : List Diagnostic) : List QueueRequest → List Diagnostic
  | [] => since
  | r :: rs => (q.serve r).recordAll (q.record since r) rs

theorem accepts_iff : q.accepts d = true ↔
    q.limitReached = false ∧ (q.limits.deduplicate = true → ∀ e ∈ q.kept, ¬ e.SaysSame d) := by
  have hrepeats : q.repeats d = false ↔ ∀ e ∈ q.kept, ¬ e.SaysSame d := by
    rw [← Bool.not_eq_true, repeats_iff, not_exists]
    simp only [not_and]
  simp only [accepts, Bool.and_eq_true, Bool.not_eq_true', Bool.and_eq_false_iff, hrepeats,
    ← Bool.not_eq_true (b := q.limits.deduplicate), imp_iff_not_or]

/-- A diagnostic is kept at the end, and counted if it is an error, or nothing
changes. -/
theorem add_cases (q : DiagnosticQueue) (d : Diagnostic) :
    (q.accepts d = true ∧ q.add d = (true, { q with
        kept := q.kept ++ [d], errorCount := q.errorCount + [d].countP (·.isError) })) ∨
      (q.accepts d = false ∧ q.add d = (false, q)) := by
  cases haccepts : q.accepts d with
  | false => exact .inr ⟨rfl, add_of_not_accepts haccepts⟩
  | true =>
    refine .inl ⟨rfl, ?_⟩
    cases herror : d.isError <;> simp [add, haccepts, herror]

/-! ## What every request keeps -/

/-- The queue keeps what was recorded since the last flush, counts the errors in
it, and holds to its limits. -/
structure Accounts (limits : QueueLimits) (q : DiagnosticQueue) (since : List Diagnostic) :
    Prop where
  limits : q.limits = limits
  kept : q.kept = since
  counted : q.errorCount = q.kept.countP (·.isError)
  bounded : 0 < q.limits.errorLimit → q.errorCount ≤ q.limits.errorLimit
  distinct : q.limits.deduplicate = true → q.kept.Pairwise fun d e => ¬ d.SaysSame e

namespace Accounts

variable {limits : QueueLimits}

theorem new (limits : QueueLimits) : Accounts limits (.new limits) [] where
  limits := rfl
  kept := rfl
  counted := rfl
  bounded _ := Nat.zero_le _
  distinct _ := .nil

theorem add (h : Accounts limits q since) (d : Diagnostic) :
    Accounts limits (q.add d).2 (if (q.add d).1 then since ++ [d] else since) := by
  obtain ⟨haccepts, hadd⟩ | ⟨_, hadd⟩ := q.add_cases d
  · obtain ⟨hroom, hnew⟩ := accepts_iff.mp haccepts
    have hbelow : 0 < q.limits.errorLimit → q.errorCount < q.limits.errorLimit := fun hlimit => by
      by_contra hreached
      rw [limitReached_iff.mpr ⟨hlimit, Nat.le_of_not_lt hreached⟩] at hroom
      contradiction
    rw [hadd]
    refine ⟨h.limits, by simp [h.kept], by simp [h.counted], fun hlimit => ?_, fun hdedup => ?_⟩
    · have hone : [d].countP (·.isError) ≤ 1 := List.countP_le_length
      exact (Nat.add_le_add_left hone _).trans (hbelow hlimit)
    · refine List.pairwise_append.mpr ⟨h.distinct hdedup, List.pairwise_singleton _ _, ?_⟩
      rintro e he _ hd
      obtain rfl := List.mem_singleton.mp hd
      exact hnew hdedup e he
  · rw [hadd]
    exact h

theorem serve (h : Accounts limits q since) (r : QueueRequest) :
    Accounts limits (q.serve r) (q.record since r) := by
  cases r with
  | add d => exact h.add d
  | emit d => exact h.add d
  | flush => exact ⟨h.limits, rfl, rfl, fun _ => Nat.zero_le _, fun _ => .nil⟩

theorem serveAll (h : Accounts limits q since) (rs : List QueueRequest) :
    Accounts limits (q.serveAll rs) (q.recordAll since rs) := by
  induction rs generalizing q since with
  | nil => exact h
  | cons r rs ih => exact ih (h.serve r)

theorem hasErrors_iff (h : Accounts limits q since) :
    q.hasErrors = true ↔ ∃ e ∈ q.kept, e.isError = true := by
  rw [hasErrors, decide_eq_true_eq, h.counted, List.countP_pos_iff]

end Accounts

/-! ## A full queue -/

/-- A queue that has reached its limit keeps nothing more until it is flushed. -/
theorem serveAll_of_limitReached (hfull : q.limitReached = true) {rs : List QueueRequest}
    (hrs : .flush ∉ rs) : q.serveAll rs = q := by
  have hadd : ∀ d, q.add d = (false, q) := fun d => add_of_not_accepts (by simp [accepts, hfull])
  induction rs with
  | nil => rfl
  | cons r rs ih =>
    obtain ⟨hfirst, hrest⟩ : .flush ≠ r ∧ .flush ∉ rs := by simpa using hrs
    have hserve : q.serve r = q := by
      cases r with
      | add d => simp [serve, hadd]
      | emit d => simp [serve, push, hadd]
      | flush => contradiction
    rw [serveAll, List.foldl_cons, hserve]
    exact ih hrest

/-! ## What a flush hands back -/

theorem flush_perm (q : DiagnosticQueue) : q.flush.1.Perm q.kept := List.mergeSort_perm _ _

theorem reportLe_trans (a b c : Diagnostic) (hab : reportLe a b = true)
    (hbc : reportLe b c = true) : reportLe a c = true :=
  positionLe_trans _ _ _ hab hbc

theorem reportLe_total (a b : Diagnostic) : (reportLe a b || reportLe b a) = true :=
  positionLe_total _ _

theorem flush_sorted (q : DiagnosticQueue) :
    q.flush.1.Pairwise fun d e => d.position ≤ e.position :=
  (List.pairwise_mergeSort reportLe_trans reportLe_total q.kept).imp reportLe_iff.mp

/-- Diagnostics at one place come in the order in which they were kept. -/
theorem flush_stable (q : DiagnosticQueue) (p : WithBot (ℕ ×ₗ ℕ)) :
    q.flush.1.filter (·.position = p) = q.kept.filter (·.position = p) := by
  have hsorted : (q.kept.filter (·.position = p)).Pairwise fun d e => reportLe d e = true := by
    refine List.pairwise_of_forall_mem_list fun d hd e he => reportLe_iff.mpr (le_of_eq ?_)
    rw [of_decide_eq_true (List.mem_filter.mp hd).2, of_decide_eq_true (List.mem_filter.mp he).2]
  have hsub : (q.kept.filter (·.position = p)).Sublist q.flush.1 :=
    List.sublist_mergeSort reportLe_trans reportLe_total hsorted List.filter_sublist
  have hfiltered := hsub.filter (·.position = p)
  rw [List.filter_filter] at hfiltered
  simp only [Bool.and_self] at hfiltered
  exact (hfiltered.eq_of_length ((q.flush_perm.filter _).length_eq.symm)).symm

/-! ## Whole runs -/

/-- After any requests to a new queue, the queue keeps what was recorded since
the last flush and counts the errors in it.  The limit bounds their number, and
once it is reached no request but a flush changes anything.  Nothing kept
repeats anything else, if repetitions are dropped.  A diagnostic is kept exactly
when the size grows by one, and otherwise nothing changes.  A flush hands back
what is kept, each once, sorted by position and otherwise in order of arrival,
and leaves a new queue. -/
theorem serveAll_accounts (limits : QueueLimits) (rs : List QueueRequest) :
    let q := (new limits).serveAll rs
    q.kept = (new limits).recordAll [] rs ∧
      q.errorCount = q.kept.countP (·.isError) ∧
      (0 < limits.errorLimit → q.errorCount ≤ limits.errorLimit ∧
        (q.errorCount = limits.errorLimit → ∀ more, .flush ∉ more → q.serveAll more = q)) ∧
      (limits.deduplicate = true → q.kept.Pairwise fun d e => ¬ d.SaysSame e) ∧
      (∀ d, ((q.add d).1 = true ↔ (q.add d).2.size = q.size + 1) ∧
        ((q.add d).1 = false → (q.add d).2 = q)) ∧
      q.flush.1.Perm q.kept ∧
      (q.flush.1.Pairwise fun d e => d.position ≤ e.position) ∧
      (∀ p, q.flush.1.filter (·.position = p) = q.kept.filter (·.position = p)) ∧
      q.flush.2 = new limits := by
  intro q
  have h : Accounts limits q ((new limits).recordAll [] rs) := (Accounts.new limits).serveAll rs
  refine ⟨h.kept, h.counted, fun hlimit => ⟨?_, fun hcount more hmore => ?_⟩, ?_, fun d => ?_,
    q.flush_perm, q.flush_sorted, q.flush_stable, ?_⟩
  · exact h.limits ▸ h.bounded (h.limits ▸ hlimit)
  · refine serveAll_of_limitReached (limitReached_iff.mpr ?_) hmore
    rw [h.limits]
    exact ⟨hlimit, hcount.ge⟩
  · exact fun hdedup => h.distinct (h.limits ▸ hdedup)
  · obtain ⟨_, hadd⟩ | ⟨_, hadd⟩ := q.add_cases d <;> simp [hadd, size]
  · rw [flush, h.limits]
    rfl

/-! ## Errors that are vouched for -/

/-- An error that is pushed leaves errors in the queue exactly when the queue
keeps one of them.  It leaves none exactly when it is dropped as a repetition by
a queue that keeps only warnings and notes. -/
theorem push_error_hasErrors (limits : QueueLimits) (rs : List QueueRequest) (d : Diagnostic)
    (hd : d.isError = true) :
    let q := (new limits).serveAll rs
    ((q.push d).hasErrors = true ↔ ∃ e ∈ (q.push d).kept, e.isError = true) ∧
      ((q.push d).hasErrors = false ↔ limits.deduplicate = true ∧
        (∃ e ∈ q.kept, e.SaysSame d) ∧ ∀ e ∈ q.kept, e.isError = false) := by
  intro q
  have h : Accounts limits q ((new limits).recordAll [] rs) := (Accounts.new limits).serveAll rs
  refine ⟨(h.add d).hasErrors_iff, ?_⟩
  have hnone : q.hasErrors = false ↔ ∀ e ∈ q.kept, e.isError = false := by
    rw [← Bool.not_eq_true, h.hasErrors_iff]
    simp
  rw [← h.limits]
  obtain ⟨haccepts, hadd⟩ | ⟨haccepts, hadd⟩ := q.add_cases d
  · -- The error is kept, so it repeats nothing.
    refine iff_of_false ?_ ?_
    · simp [push, hadd, hasErrors, hd]
    · rintro ⟨hdedup, ⟨e, he, hsame⟩, _⟩
      exact (accepts_iff.mp haccepts).2 hdedup e he hsame
  · rw [push, hadd, hnone]
    refine ⟨fun hwarnings => ?_, fun hdropped => hdropped.2.2⟩
    have hroom : q.limitReached = false := by
      by_contra hreached
      obtain ⟨hlimit, hcount⟩ := limitReached_iff.mp (Bool.eq_true_of_not_eq_false hreached)
      have herrors : q.hasErrors = true := decide_eq_true (hlimit.trans_le hcount)
      rw [hnone.mpr hwarnings] at herrors
      contradiction
    by_contra hkept
    rw [accepts_iff.mpr ⟨hroom, fun hdedup e he hsame =>
      hkept ⟨hdedup, ⟨e, he, hsame⟩, hwarnings⟩⟩] at haccepts
    contradiction

/-- A full queue drops a further error and has errors. -/
theorem fullQueue_hasErrors :
    (Diagnostic.error .malformedTree "b").isError = true ∧
      (((new ⟨1, true⟩).serveAll [.emit (.error .malformedTree "a")]).push
        (.error .malformedTree "b")).hasErrors = true :=
  ⟨rfl, (push_error_hasErrors ⟨1, true⟩ [.emit (.error .malformedTree "a")]
    (.error .malformedTree "b") rfl).1.mpr ⟨.error .malformedTree "a", by decide, rfl⟩⟩

/-- An error that repeats a kept warning leaves no error in the queue. -/
theorem repeatedWarning_hasNoErrors :
    ¬ ∀ (limits : QueueLimits) (rs : List QueueRequest) (d : Diagnostic), d.isError = true →
      (((new limits).serveAll rs).push d).hasErrors = true ∧
        ∃ e ∈ (((new limits).serveAll rs).push d).kept, e.isError = true := by
  intro h
  have hnone :
      (((new .standard).serveAll [.add ⟨.missingTypeArgument, .warning, "lossy", [], []⟩]).push
        (.error .missingTypeArgument "lossy")).hasErrors = false := by decide
  rw [(h _ _ _ rfl).1] at hnone
  contradiction

end DiagnosticQueue

end TreeLowering
