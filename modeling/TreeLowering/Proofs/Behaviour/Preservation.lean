import TreeLowering.Proofs.Behaviour.Statement
set_option autoImplicit false

/-!
# Behaviour: preservation

A block and its lowered code do the same from the same variables: they end
alike, leave the variables alike, and extend the trace alike, also where they
halt.
-/

namespace TreeLowering.Behaviour

open TreeLowering.Behaviour.Frame (Same Linked)
open TreeLowering.Tree (Expr Stmt)

variable {s : LowerState} {ρ : Locals}

/-! ## Frames of equal variables -/

theorem linked_ofLocals (x : String) (ρ : Locals) : Linked x x (Frame.ofLocals ρ) := by
  induction ρ with
  | nil => trivial
  | cons e ρ ih =>
    by_cases hx : e.1 = x
    · exact .inl ⟨hx, hx⟩
    · exact .inr ⟨hx, hx, ih⟩

/-- Before anything is narrowed, variables with plain names are their own
code. -/
theorem fits_ofLocals (hnames : s.names.replacements = []) (hguard : s.loopGuard = none)
    (hlocals : ∀ e ∈ ρ, Plain e.1) : Fits s (Frame.ofLocals ρ) := by
  have hfind : ∀ x, s.names.find? x = none := by
    intro x
    rw [NameScope.find?, hnames]
    rfl
  refine ⟨fun x _ => ?_, fun x y hfound => ?_, fun slot hmem => ?_, fun g hg => ?_⟩
  · rw [NameScope.resolve, hfind x]
    exact linked_ofLocals x ρ
  · rw [hfind x] at hfound
    contradiction
  · obtain ⟨e, he, rfl⟩ := List.mem_map.mp hmem
    exact .inl (hlocals e he)
  · rw [hguard] at hg
    contradiction

theorem source_eq_target {K : Frame} (h : Same (Frame.ofLocals ρ) K) : K.source = K.target := by
  induction ρ generalizing K with
  | nil =>
    cases h
    rfl
  | cons e ρ ih =>
    cases h with
    | shared _ _ _ w h => exact congrArg (List.cons (e.1, w)) (ih h)

/-! ## Blocks -/

/-- A block of a regular, well scoped program does what its lowered code does. -/
theorem lowerStmts_preserves_behaviour (machine : Machine) (env : Env) (body : List Stmt)
    (s s' : LowerState) (code : List Target.Stmt) (ρ : Locals) (trace : Trace)
    (hregular : Stmt.regularAll body = true) (hscoped : Stmt.wellScopedAll [] body = true)
    (hnames : s.names.replacements = []) (hguard : s.loopGuard = none)
    (hlocals : ∀ e ∈ ρ, Plain e.1)
    (hpresent : ∀ t, (Run.inScope (machine.runTrees env body)).run ρ trace ≠
      .error ⟨.absentElement, t⟩)
    (hcode : (env.lowerStmts body).runFrom s = (.ok code, s')) :
    (Run.inScope (machine.runAll code)).run ρ trace =
      (Run.inScope (machine.runTrees env body)).run ρ trace := by
  have hfits : Fits s (Frame.ofLocals ρ) := fits_ofLocals hnames hguard hlocals
  have hcovers : Covers [] s := by
    intro x _
    rw [NameScope.find?, hnames]
    rfl
  obtain ⟨hfollows, hagree⟩ := lowerStmts_simulates body hregular hscoped hcovers hcode
  have hends : Agree (Ends none (Frame.ofLocals ρ))
      ((machine.runTrees env body).run (Frame.ofLocals ρ).source)
      ((machine.runAll code).run (Frame.ofLocals ρ).target) :=
    (hagree _ hfits).mono (fun r r' hr => hguard ▸ hfollows.guard ▸ hr.ends)
  have hscope := hends.inScope
  rw [Frame.source_ofLocals, Frame.target_ofLocals] at hscope
  refine Agree.eq_of (hscope.mono ?_) hpresent
  rintro ⟨flow, ρ'⟩ ⟨flow', τ'⟩ ⟨hflow, K, hsame, hsource, htarget⟩
  cases hflow
  cases hsource
  cases htarget
  rw [source_eq_target hsame]

/-! ## A search and a void test -/

/-- A machine with nothing outside that answers calls. -/
def Machine.isolated : Machine where
  rounds := 8
  answer _ _ := none
  isInstance _ _ := false
  isIdentifiable _ := false
  isIdentifiableObject _ := false

/-- An environment without declarations of its own. -/
def bareEnv : Env := ⟨.new, .standard, 3⟩

/-- Looks for an integer among the elements of `xs`. -/
def searchBody : List Stmt :=
  let element (t : Ty) (raw : Bool) : Expr := .ident ⟨t, raw, .dummy⟩ "x"
  let found : Tree.Variable := ⟨"found", .optional Language.integerTy⟩
  [.declare .dummy found (some (.absent ⟨Language.nothingTy, false, .dummy⟩)) true,
    .each .dummy (.value ⟨"x", Language.objectTy⟩)
      (.ident ⟨.of Language.iterable [Language.objectTy], false, .dummy⟩ "xs")
      [.branch .dummy (.isOf "x" Language.integerTy (element Language.objectTy false))
        [.assign .dummy "found" (element Language.integerTy true), .leave .dummy] none]
      (some [.ret .dummy (some (.string ⟨Language.stringTy, true, .dummy⟩ "none"))]),
    .ret .dummy (some (.ident ⟨.optional Language.integerTy, false, .dummy⟩ "found"))]

/-- The lowered search finds what the search finds. -/
theorem searchBody_lowered_finds :
    ∃ code s', (bareEnv.lowerStmts searchBody).runFrom (.start .empty) = (.ok code, s') ∧
      (Run.inScope (Machine.isolated.runAll code)).run [("xs", .seq [.text "a", .int 5])] [] =
        .ok ((.ret (.int 5), [("xs", .seq [.text "a", .int 5])]), []) := by
  have hfinds : (Run.inScope (Machine.isolated.runTrees bareEnv searchBody)).run
      [("xs", .seq [.text "a", .int 5])] [] =
        .ok ((.ret (.int 5), [("xs", .seq [.text "a", .int 5])]), []) := rfl
  have hpresent : ∀ t, (Run.inScope (Machine.isolated.runTrees bareEnv searchBody)).run
      [("xs", .seq [.text "a", .int 5])] [] ≠ .error ⟨.absentElement, t⟩ := by
    intro t h
    rw [hfinds] at h
    contradiction
  obtain ⟨code, s', hcode⟩ := Lowering.exists_yields
    (show ((bareEnv.lowerStmts searchBody).runFrom (.start .empty)).1.isOk = true by decide +kernel)
  exact ⟨code, s', hcode, (lowerStmts_preserves_behaviour .isolated bareEnv searchBody
    (.start .empty) s' code [("xs", .seq [.text "a", .int 5])] [] (by decide) (by decide) rfl rfl
    (by decide) hpresent hcode).trans hfinds⟩

/-- Tests whether a raw value of the type of everything is absent. -/
def voidTestBody : List Stmt :=
  [.branch .dummy (.present (.ident ⟨Language.voidTy, true, .dummy⟩ "x"))
    [.ret .dummy (some (.integer ⟨Language.integerTy, true, .dummy⟩ 1))] none]

/-- A raw value of the type of everything is lost when it is boxed, so its test
succeeds in the tree and fails in the lowered code. -/
theorem voidTestBody_lowered_differs :
    Stmt.wellScopedAll [] voidTestBody = true ∧
      (Run.inScope (Machine.isolated.runTrees bareEnv voidTestBody)).run [("x", .int 5)] [] =
        .ok ((.ret (.int 1), [("x", .int 5)]), []) ∧
      ∃ code s', (bareEnv.lowerStmts voidTestBody).runFrom (.start .empty) = (.ok code, s') ∧
        (Run.inScope (Machine.isolated.runAll code)).run [("x", .int 5)] [] =
          .ok ((.normal, [("x", .int 5)]), []) :=
  ⟨by decide, rfl, _, _, rfl, rfl⟩

end TreeLowering.Behaviour
