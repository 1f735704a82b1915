import TreeLowering.Diagnostic.Basic
set_option autoImplicit false

/-!
# Diagnostics: the queue

A queue keeps diagnostics until they are flushed.  It drops everything once its
error limit is reached, and, when asked to, a diagnostic that repeats the code,
the primary span and the message of a kept one.  Flushing hands the kept
diagnostics back in order of position, those without a position first.
-/

namespace TreeLowering

/-- What a queue keeps. -/
structure QueueLimits where
  /-- Number of errors after which nothing more is kept; `0` means no limit. -/
  errorLimit : Nat
  /-- Repetitions are dropped. -/
  deduplicate : Bool
  deriving DecidableEq, Repr

namespace QueueLimits

/-- Ten errors, without repetitions. -/
def standard : QueueLimits := ⟨10, true⟩

/-- Everything is kept. -/
def unlimited : QueueLimits := ⟨0, false⟩

instance : Inhabited QueueLimits := ⟨standard⟩

end QueueLimits

/-- The diagnostics kept since the last flush. -/
structure DiagnosticQueue where
  limits : QueueLimits
  /-- Kept diagnostics, oldest first. -/
  kept : List Diagnostic
  /-- Number of errors among them. -/
  errorCount : Nat
  deriving DecidableEq, Repr, Inhabited

namespace DiagnosticQueue

/-- An empty queue. -/
def new (limits : QueueLimits) : DiagnosticQueue := ⟨limits, [], 0⟩

/-- Enough errors are kept. -/
def limitReached (q : DiagnosticQueue) : Bool :=
  0 < q.limits.errorLimit && q.limits.errorLimit ≤ q.errorCount

/-- Two diagnostics say the same thing about the same place. -/
def sameReport (d e : Diagnostic) : Bool :=
  d.code == e.code && d.primarySpan? == e.primarySpan? && d.message == e.message

/-- A kept diagnostic says the same. -/
def repeats (q : DiagnosticQueue) (d : Diagnostic) : Bool := q.kept.any (sameReport · d)

/-- The queue has room for the diagnostic. -/
def accepts (q : DiagnosticQueue) (d : Diagnostic) : Bool :=
  !q.limitReached && !(q.limits.deduplicate && q.repeats d)

/-- Offers a diagnostic; tells whether it was kept. -/
def add (q : DiagnosticQueue) (d : Diagnostic) : Bool × DiagnosticQueue :=
  if q.accepts d then
    (true, { q with kept := q.kept ++ [d],
                    errorCount := if d.isError then q.errorCount + 1 else q.errorCount })
  else (false, q)

/-- Offers a diagnostic without asking whether it was kept. -/
def push (q : DiagnosticQueue) (d : Diagnostic) : DiagnosticQueue := (q.add d).2

/-- Offers diagnostics one after the other. -/
def pushAll (q : DiagnosticQueue) (ds : List Diagnostic) : DiagnosticQueue := ds.foldl push q

/-- Number of kept diagnostics. -/
def size (q : DiagnosticQueue) : Nat := q.kept.length

/-- Nothing is kept. -/
def isEmpty (q : DiagnosticQueue) : Bool := q.kept.isEmpty

/-- Some kept diagnostic is an error. -/
def hasErrors (q : DiagnosticQueue) : Bool := 0 < q.errorCount

/-- Order of two positions: no position, then by start, then by end. -/
def positionLe : Option Span → Option Span → Bool
  | none, _ => true
  | some _, none => false
  | some s, some t => s.start < t.start || (s.start == t.start && s.stop ≤ t.stop)

/-- Order of two diagnostics in a flush. -/
def reportLe (d e : Diagnostic) : Bool := positionLe d.primarySpan? e.primarySpan?

/-- Hands back what was kept, sorted by position, and empties the queue. -/
def flush (q : DiagnosticQueue) : List Diagnostic × DiagnosticQueue :=
  (q.kept.mergeSort reportLe, { q with kept := [], errorCount := 0 })

/-! ## Small laws -/

theorem positionLe_total (s t : Option Span) : (positionLe s t || positionLe t s) = true := by
  cases s with
  | none => cases t <;> rfl
  | some s =>
    cases t with
    | none => rfl
    | some t =>
      simp only [positionLe, Bool.or_eq_true, Bool.and_eq_true, decide_eq_true_eq, beq_iff_eq]
      omega

theorem positionLe_trans (r s t : Option Span) :
    positionLe r s = true → positionLe s t = true → positionLe r t = true := by
  cases r with
  | none => intros; rfl
  | some r =>
    cases s with
    | none => intro h; simp [positionLe] at h
    | some s =>
      cases t with
      | none => intro _ h; simp [positionLe] at h
      | some t =>
        simp only [positionLe, Bool.or_eq_true, Bool.and_eq_true, decide_eq_true_eq, beq_iff_eq]
        omega

theorem add_of_accepts {q : DiagnosticQueue} {d : Diagnostic} (h : q.accepts d = true) :
    (q.add d).2.kept = q.kept ++ [d] := by
  simp [add, h]

theorem add_of_not_accepts {q : DiagnosticQueue} {d : Diagnostic} (h : q.accepts d = false) :
    q.add d = (false, q) := by
  simp [add, h]

end DiagnosticQueue

end TreeLowering
