import TreeLowering.Lowering.Condition
import TreeLowering.Proofs.Behaviour.Expression
import TreeLowering.Proofs.Behaviour.TypeTest
set_option autoImplicit false

/-!
# Behaviour: conditions

A lowered condition runs its setup, then its test.  The setup binds the subject
to a hidden name, so the test reads nothing but that binding; a guarded block
opens with the value of the same binding, under the name that is narrowed in it.
-/

namespace TreeLowering.Behaviour

open Lowering (Yields)
open TreeLowering.Tree (Expr Condition)

variable {machine : Machine} {env : Env} {s t s' : LowerState} {K : Frame}

/-! ## Lowered conditions -/

/-- Runs the setup of a condition, and then its test. -/
def Machine.runTest (machine : Machine) (c : LoweredCondition) : Run Bool := do
  let _ ← machine.runAll c.setup
  truth (← machine.evalCode c.test)

/-- Above a frame, the guarded block of a condition opens with what the
condition binds. -/
def Opens (machine : Machine) (s : LowerState) (c : LoweredCondition) (K : Frame)
    (new : Locals) : Prop :=
  match c.narrowed with
  | none => new = []
  | some n => ∃ v, new = [(n.source, v)] ∧
    (machine.runCode n.binding).run K.target = pure (.normal, (n.synthetic, v) :: K.target) ∧
    Fits { s with names := (s.names.replace n.source n.synthetic).2 }
      (.shared n.source n.synthetic v :: K)

/-- The code decides as the condition did: it leaves hidden slots only, above
which the guarded block opens if the condition holds. -/
def Decided (machine : Machine) (s : LowerState) (c : LoweredCondition) (K : Frame)
    (o : Option Locals) (r : Bool × Locals) : Prop :=
  r.1 = o.isSome ∧ ∃ L : Frame, L.source = [] ∧ (c.setup = [] → L = []) ∧
    r.2 = (L ++ K).target ∧ Fits s (L ++ K) ∧ ∀ new, o = some new → Opens machine s c (L ++ K) new

/-- A lowered condition decides as the condition does. -/
structure Decides (machine : Machine) (env : Env) (test : Condition) (c : LoweredCondition)
    (s s' : LowerState) : Prop where
  follows : s.Follows s'
  narrows : c.narrowed.toList.map Narrowed.source = test.narrows
  /-- The setup only declares. -/
  setup : ∀ stmt ∈ c.setup, ∃ d, stmt = .declare d
  /-- Without a narrowed binding, there is no setup either. -/
  plain : c.narrowed = none → c.setup = []
  agrees : ∀ K, Fits s K →
    Agree (Decided machine s' c K) (machine.bindings env K.source test)
      ((machine.runTest c).run K.target)

/-! ## Conditions that bind nothing -/

/-- A condition whose lowered test does what its own test does. -/
theorem plain_decides {test : Condition} {code : Target.Expr} (a : Locals → Act Bool)
    (hfollows : s.Follows s') (hnarrows : test.narrows = [])
    (hbindings : ∀ ρ, machine.bindings env ρ test =
      (fun b => if b then some [] else none) <$> a ρ)
    (hdoes : ∀ K, Fits s K → Does K.target (do truth (← machine.evalCode code)) (a K.source)) :
    Decides machine env test (.plain code) s s' where
  follows := hfollows
  narrows := hnarrows.symm
  setup _ hmem := by contradiction
  plain _ := rfl
  agrees K hK := by
    have hrun : (machine.runTest (.plain code)).run K.target =
        (fun b => (b, K.target)) <$> a K.source := by
      rw [← hdoes K hK]
      simp only [Machine.runTest, LoweredCondition.plain, Machine.runAll, pure_bind]
    rw [hbindings, hrun]
    refine Agree.map (.refl _) (fun b _ hb => ?_)
    subst hb
    refine ⟨by cases b <;> rfl, [], rfl, fun _ => rfl, rfl, hK.follows hfollows, fun new hnew => ?_⟩
    cases b
    · contradiction
    · exact (Option.some.inj hnew).symm

/-! ## Narrowing conditions -/

theorem rawSubject_yields (machine : Machine) {x raw : String} {e : Expr} {binding : Target.Stmt}
    (hregular : e.regular = true) (h : Yields (env.rawSubject x e) s (raw, binding) s') :
    Drawn s raw s' ∧ ∃ ty init, binding = .declareFinal raw ty init ∧
      Realizes machine env e init s s' := by
  obtain ⟨raw', s₁, hfresh, h⟩ := Lowering.yields_bind.mp h
  obtain ⟨ty, s₂, hty, h⟩ := Lowering.yields_bind.mp h
  obtain ⟨init, s₃, hinit, h⟩ := Lowering.yields_bind.mp h
  obtain ⟨heq, rfl⟩ := Lowering.yields_pure.mp h
  cases heq
  obtain ⟨hfollows, hdoes⟩ := lowerExpr_realizes machine hregular hinit
  have hdrawn := Drawn.fresh hfresh
  have htype := LowerState.Follows.ofType hty
  refine ⟨hdrawn.after (htype.trans hfollows), ty, init, rfl,
    (hdrawn.follows.trans htype).trans hfollows, fun K hK => ?_⟩
  exact hdoes K (hK.follows (hdrawn.follows.trans htype))

theorem narrow_yields (machine : Machine) {raw x : String} {t : Ty} {n : Narrowed}
    (h : Yields (env.narrow raw x t) s n s') :
    n.source = x ∧ Drawn s n.synthetic s' ∧
      ∃ ty init, n.binding = .declareFinal n.synthetic ty init ∧
        ∀ {ρ : Locals} {v : Value}, ρ.read raw = pure v →
          Does ρ (machine.evalCode init) (pure v) := by
  obtain ⟨synthetic, s₁, hfresh, h⟩ := Lowering.yields_bind.mp h
  obtain ⟨boxed, s₂, hboxed, h⟩ := Lowering.yields_bind.mp h
  obtain ⟨form, s₃, hform, h⟩ := Lowering.yields_bind.mp h
  have hdrawn : Drawn s synthetic s₃ :=
    (Drawn.fresh hfresh).after ((LowerState.Follows.ofType hboxed).trans (.ofType hform))
  have hcast : ∀ {ρ : Locals} {v : Value}, ρ.read raw = pure v →
      Does ρ (machine.evalCode (.cast boxed (.ident raw))) (pure v) :=
    fun hread => Machine.does_cast boxed (Machine.does_read hread)
  cases form with
  | raw =>
    obtain ⟨ty, s₄, hty, h⟩ := Lowering.yields_bind.mp h
    obtain ⟨init, s₅, hinit, h⟩ := Lowering.yields_bind.mp h
    obtain ⟨rfl, rfl⟩ := Lowering.yields_pure.mp h
    exact ⟨rfl, hdrawn.after ((LowerState.Follows.ofType hty).trans (follows_unboxValue hinit)),
      ty, init, rfl, fun hread => Machine.does_unboxValue hinit (hcast hread)⟩
  | boxed | asIs =>
    obtain ⟨rfl, rfl⟩ := Lowering.yields_pure.mp h
    exact ⟨rfl, hdrawn, boxed, _, rfl, hcast⟩

/-- A condition that binds its subject, tests the binding and narrows it. -/
theorem narrowing_decides {test : Condition} {x raw : String} {e : Expr} {t : Ty}
    {binding : Target.Stmt} {code : Target.Expr} {n : Narrowed} {s₁ s₂ : LowerState}
    (holds : Value → Act Bool) (hregular : e.regular = true) (hnarrows : test.narrows = [x])
    (hbindings : ∀ ρ, machine.bindings env ρ test = (do
      let v ← machine.evalTree env ρ e
      let b ← holds v
      pure (if b then some [(x, v)] else none)))
    (hraw : Yields (env.rawSubject x e) s (raw, binding) s₁) (hfollows : s₁.Follows s₂)
    (hdoes : ∀ {ρ : Locals} {v : Value}, ρ.read raw = pure v →
      Does ρ (do truth (← machine.evalCode code)) (holds v))
    (hnarrow : Yields (env.narrow raw x t) s₂ n s') :
    Decides machine env test ⟨[binding], code, some n⟩ s s' := by
  obtain ⟨hdrawn, ty, init, rfl, hinit⟩ := rawSubject_yields machine hregular hraw
  obtain ⟨rfl, hsynthetic, ty', value, hbinding, hvalue⟩ :=
    narrow_yields machine hnarrow
  refine ⟨(hdrawn.follows.trans hfollows).trans hsynthetic.follows, hnarrows.symm, ?_, ?_, ?_⟩
  · intro stmt hmem
    exact ⟨_, List.mem_singleton.mp hmem⟩
  · intro hnone
    contradiction
  · intro K hK
    have hread : ∀ v, Locals.read raw ((raw, v) :: K.target) = pure v := by
      intro v
      simp [Locals.read]
    have hrun : (machine.runTest ⟨[.declareFinal raw ty init], code, some n⟩).run K.target = (do
        let v ← machine.evalTree env K.source e
        let b ← holds v
        pure (b, (raw, v) :: K.target)) := by
      have htest := fun v => hdoes (hread v)
      simp only [Does, map_eq_pure_bind] at htest
      simp only [Machine.runTest, Machine.runAll_single]
      rw [StateT.run_bind, Machine.run_declareFinal (hinit.2 K hK), bind_map_left]
      exact bind_congr htest
    rw [hbindings, hrun]
    refine Agree.bind (.refl _) (fun v _ hv => ?_)
    subst hv
    refine Agree.bind (.refl _) (fun b _ hb => .pure ?_)
    subst hb
    refine ⟨by cases b <;> rfl, [.hidden raw v], rfl, fun hnil => by contradiction, rfl, ?_,
      fun new hnew => ?_⟩
    · exact hK.hide (hdrawn.after (hfollows.trans hsynthetic.follows)) v
    · cases b with
      | false => contradiction
      | true =>
        refine ⟨v, (Option.some.inj hnew).symm, ?_, (hK.hide (hdrawn.after hfollows) v).narrow
          hsynthetic v⟩
        rw [hbinding]
        exact Machine.run_declareFinal (hvalue (hread v))

/-! ## All conditions -/

theorem requireSubject_yields {x : String} {u : Unit} (h : Yields (Env.requireSubject x) s u s') :
    s' = s := by
  have hrun : (Env.requireSubject x).runFrom s =
      (if x.isEmpty then .error (.missingSubjectVariable s.span) else .ok (), s) := rfl
  unfold Lowering.Yields at h
  rw [hrun] at h
  exact (congrArg Prod.snd h).symm

/-- Every lowered condition decides as the condition does. -/
theorem lowerCondition_decides {test : Condition} {c : LoweredCondition}
    (hregular : test.regular = true) (h : Yields (env.lowerCondition test) s c s') :
    Decides machine env test c s s' := by
  cases test with
  | test e =>
    obtain ⟨code, s₁, hcode, h⟩ := Lowering.yields_bind.mp h
    obtain ⟨rfl, rfl⟩ := Lowering.yields_pure.mp h
    obtain ⟨hfollows, hdoes⟩ := lowerExpr_realizes machine hregular hcode
    refine plain_decides (fun ρ => do truth (← machine.evalTree env ρ e)) hfollows rfl
      (fun ρ => ?_) (fun K hK => (hdoes K hK).truth)
    rw [map_eq_pure_bind, bind_assoc]
    rfl
  | present e =>
    obtain ⟨code, s₁, hcode, h⟩ := Lowering.yields_bind.mp h
    obtain ⟨rfl, rfl⟩ := Lowering.yields_pure.mp h
    obtain ⟨hfollows, hdoes⟩ := lowerExpr_realizes machine hregular hcode
    refine plain_decides (fun ρ => (fun v => !v.isAbsent) <$> machine.evalTree env ρ e) hfollows
      rfl (fun ρ => ?_) (fun K hK => Machine.does_present (hdoes K hK))
    rw [Functor.map_map, map_eq_pure_bind]
    refine bind_congr (fun v => ?_)
    cases v.isAbsent <;> rfl
  | presentAs var e =>
    obtain ⟨⟨raw, binding⟩, s₁, hraw, h⟩ := Lowering.yields_bind.mp h
    obtain ⟨n, s₂, hnarrow, h⟩ := Lowering.yields_bind.mp h
    obtain ⟨rfl, rfl⟩ := Lowering.yields_pure.mp h
    simp only [Condition.regular, Bool.and_eq_true] at hregular
    refine narrowing_decides (fun v => pure (!v.isAbsent)) hregular.2 rfl (fun ρ => ?_)
      hraw (.refl _) (fun hread => ?_) hnarrow
    · refine bind_congr (fun v => ?_)
      rw [pure_bind]
      cases v.isAbsent <;> rfl
    · exact Machine.does_present (Machine.does_read hread)
  | isOf x t e =>
    obtain ⟨_, s₀, hsubject, h⟩ := Lowering.yields_bind.mp h
    obtain ⟨⟨raw, binding⟩, s₁, hraw, h⟩ := Lowering.yields_bind.mp h
    obtain ⟨test, s₂, htest, h⟩ := Lowering.yields_bind.mp h
    obtain ⟨n, s₃, hnarrow, h⟩ := Lowering.yields_bind.mp h
    obtain ⟨rfl, rfl⟩ := Lowering.yields_pure.mp h
    obtain rfl := requireSubject_yields hsubject
    have hisTest : IsTest machine (fun raw => env.typeTest raw t)
        (fun v => verdict machine env v t) := typeTest_isTest t
    simp only [Condition.regular, Bool.and_eq_true] at hregular
    refine narrowing_decides (fun v => machine.hasType env v t) hregular.2 rfl
      (fun ρ => rfl) hraw (hisTest.follows htest) (fun hread => ?_) hnarrow
    rw [hasType_eq htest]
    exact (hisTest.does htest hread).truth
  | nonempty var e =>
    obtain ⟨⟨raw, binding⟩, s₁, hraw, h⟩ := Lowering.yields_bind.mp h
    obtain ⟨test, s₂, htest, h⟩ := Lowering.yields_bind.mp h
    obtain ⟨n, s₃, hnarrow, h⟩ := Lowering.yields_bind.mp h
    obtain ⟨rfl, rfl⟩ := Lowering.yields_pure.mp h
    simp only [Condition.regular, Bool.and_eq_true] at hregular
    refine narrowing_decides (fun v => pure (Machine.hasElement v)) hregular.2 rfl
      (fun ρ => ?_) hraw (.ofType htest) (fun hread => ?_) hnarrow
    · refine bind_congr (fun v => ?_)
      rw [pure_bind]
    · exact (nonemptyTest_does htest.answer hread).truth

end TreeLowering.Behaviour
