import TreeLowering.Proofs.Behaviour.Code
set_option autoImplicit false

/-!
# Behaviour: agreement

Two actions agree when they extend every trace alike, with related results or
with the same halt.  An action that halts at an absent element agrees with any
other, because nothing is claimed of loops over absent elements.

A run that leaves the locals alone does what an action does.
-/

namespace TreeLowering.Behaviour

variable {α β γ δ : Type}

/-! ## Agreement of actions -/

/-- From every trace, `y` does what `x` does, with related results, unless `x`
meets an absent element. -/
def Agree (R : α → β → Prop) (x : Act α) (y : Act β) : Prop :=
  ∀ trace, match x trace with
    | .ok (a, t) => ∃ b, y trace = .ok (b, t) ∧ R a b
    | .error stop => stop.halt = .absentElement ∨ y trace = .error stop

namespace Agree

variable {R : α → β → Prop} {S : γ → δ → Prop} {x : Act α} {y : Act β}

theorem refl (x : Act α) : Agree Eq x x := by
  intro trace
  cases x trace with
  | ok p => exact ⟨p.1, rfl, rfl⟩
  | error stop => exact .inr rfl

theorem pure {a : α} {b : β} (h : R a b) : Agree R (pure a) (pure b) :=
  fun _ => ⟨b, rfl, h⟩

theorem halt (h : Halt) : Agree R (halt h) (halt h) := fun _ => .inr rfl

theorem absentElement : Agree R (Behaviour.halt .absentElement) y := fun _ => .inl rfl

theorem mono {R' : α → β → Prop} (h : Agree R x y) (himp : ∀ a b, R a b → R' a b) :
    Agree R' x y := by
  intro trace
  have := h trace
  split
  · rename_i a t hx
    rw [hx] at this
    obtain ⟨b, hy, hr⟩ := this
    exact ⟨b, hy, himp a b hr⟩
  · rename_i stop hx
    rw [hx] at this
    exact this

theorem bind {f : α → Act γ} {g : β → Act δ} (h : Agree R x y)
    (k : ∀ a b, R a b → Agree S (f a) (g b)) : Agree S (x >>= f) (y >>= g) := by
  intro trace
  have hx := h trace
  have hbind : (x >>= f) trace = (x trace >>= fun p => f p.1 p.2) := rfl
  have hbind' : (y >>= g) trace = (y trace >>= fun p => g p.1 p.2) := rfl
  rw [hbind, hbind']
  cases hxt : x trace with
  | error stop =>
    rw [hxt] at hx
    refine hx.imp id (fun hy => ?_)
    rw [hy]
    rfl
  | ok p =>
    obtain ⟨a, t⟩ := p
    rw [hxt] at hx
    obtain ⟨b, hy, hr⟩ := hx
    rw [hy]
    exact k a b hr t

theorem map {f : α → γ} {g : β → δ} (h : Agree R x y) (k : ∀ a b, R a b → S (f a) (g b)) :
    Agree S (f <$> x) (g <$> y) := by
  rw [map_eq_pure_bind, map_eq_pure_bind]
  exact h.bind (fun a b hr => .pure (k a b hr))

/-- From one trace, agreeing actions with equal results do the same, unless the
first meets an absent element. -/
theorem eq_of {y : Act α} (h : Agree Eq x y) {trace : Trace}
    (habsent : ∀ t, x trace ≠ .error ⟨.absentElement, t⟩) : y trace = x trace := by
  have hx := h trace
  cases hxt : x trace with
  | error stop =>
    rw [hxt] at hx
    refine hx.resolve_left (fun hhalt => ?_)
    obtain ⟨halt, t⟩ := stop
    exact habsent t (by rw [hxt, ← hhalt])
  | ok p =>
    obtain ⟨a, t⟩ := p
    rw [hxt] at hx
    obtain ⟨b, hy, rfl⟩ := hx
    exact hy

end Agree

/-! ## Runs one after the other -/

namespace Run

/-- A run, and then another one if the first ends normally. -/
def andNext (x y : Run Flow) : Run Flow := do
  match ← x with
  | .normal => y
  | flow => Pure.pure flow

theorem andNext_normal (x : Run Flow) : x.andNext (Pure.pure .normal) = x := by
  refine Eq.trans (bind_congr (fun flow => ?_)) (bind_pure x)
  cases flow <;> rfl

theorem andNext_assoc (x y z : Run Flow) : (x.andNext y).andNext z = x.andNext (y.andNext z) := by
  unfold andNext
  rw [bind_assoc]
  refine bind_congr (fun flow => ?_)
  cases flow with
  | normal => rfl
  | leave | ret _ => exact pure_bind _ _

end Run

/-! ## Runs that leave the locals alone -/

/-- Over some locals, a run does what an action does and leaves the locals
alone. -/
def Does (ρ : Locals) (x : Run α) (a : Act α) : Prop := x.run ρ = (fun v => (v, ρ)) <$> a

namespace Does

variable {ρ : Locals} {x : Run α} {a : Act α}

theorem pure (v : α) : Does ρ (pure v) (pure v) := by
  simp [Does]

theorem lift (a : Act α) : Does ρ (liftM a) a := by
  rw [Does, map_eq_pure_bind]
  rfl

theorem lookup (x : String) : Does ρ (Run.lookup x) (ρ.read x) := rfl

theorem bind {f : α → Run β} {g : α → Act β} (h : Does ρ x a)
    (k : ∀ v, Does ρ (f v) (g v)) : Does ρ (x >>= f) (a >>= g) := by
  unfold Does at *
  rw [StateT.run_bind, h, bind_map_left, map_bind]
  congr 1
  funext v
  exact k v

/-- A test decides between two runs. -/
theorem ite {x' : Run α} {a' : Act α} (b : Bool) (h : Does ρ x a) (h' : Does ρ x' a') :
    Does ρ (if b then x else x') (if b then a else a') := by
  cases b
  · exact h'
  · exact h

theorem truth {x : Run Value} {a : Act Value} (h : Does ρ x a) :
    Does ρ (do truth (← x)) (do truth (← a)) :=
  h.bind (fun v => .lift (Behaviour.truth v))

theorem negate {x : Run Value} {a : Act Value} (h : Does ρ x a) :
    Does ρ (negate x) (negate a) :=
  h.bind (fun v => .bind (.lift (Behaviour.truth v)) (fun _ => .pure _))

theorem operate {x y : Run Value} {a b : Act Value} (op : Target.BinaryOp) (h : Does ρ x a)
    (h' : Does ρ y b) : Does ρ (operate op x y) (operate op a b) := by
  have hboth : Does ρ (do
      let v ← x
      let w ← y
      liftM (combine op v w) : Run Value) (do
      let v ← a
      let w ← b
      combine op v w) :=
    h.bind (fun v => h'.bind (fun w => .lift (combine op v w)))
  have htest : ∀ v, Does ρ (do
      let b ← Behaviour.truth v
      Pure.pure (Value.bool b) : Run Value) (do
      let b ← Behaviour.truth v
      Pure.pure (Value.bool b)) := fun v => .bind (.lift _) (fun _ => .pure _)
  cases op with
  | and =>
    refine h.bind (fun v => .bind (.lift _) (fun t => .ite t ?_ (.pure _)))
    exact h'.bind htest
  | or =>
    refine h.bind (fun v => .bind (.lift _) (fun t => .ite t (.pure _) ?_))
    exact h'.bind htest
  | add | sub | mul | eq | ne | lt | gt => exact hboth

end Does

theorem Locals.keep_append (σ ρ : Locals) : Locals.keep ρ.length (σ ++ ρ) = ρ := by
  simp [Locals.keep]

/-- A scope that declares one variable first. -/
theorem does_inScope_declare {ρ : Locals} {x : String} {v : Value} {y : Run α} {a : Act α}
    (h : Does ((x, v) :: ρ) y a) :
    Does ρ (Run.inScope do
      Run.declare x v
      y) a := by
  have hrun : (Run.inScope do
      Run.declare x v
      y).run ρ = (fun r => (r.1, Locals.keep ρ.length r.2)) <$> y.run ((x, v) :: ρ) := rfl
  unfold Does at *
  rw [hrun, h, Functor.map_map]
  congr 1
  funext w
  exact congrArg (Prod.mk w) (Locals.keep_append [(x, v)] ρ)

end TreeLowering.Behaviour
