import TreeLowering.Proofs.Behaviour.Frame
import TreeLowering.Proofs.Behaviour.Tree
set_option autoImplicit false

/-!
# Behaviour: simulation

A tree and its code run from the two sides of one frame and end alike, on the
two sides of a frame again.  What was declared on the way stands above the
slots from before, and leaving a loop has cleared the loop's guard.
-/

namespace TreeLowering.Behaviour

open TreeLowering.Behaviour.Frame

variable {α β γ δ : Type} {s t s' : LowerState} {K L M : Frame} {guard : Option String}

/-! ## Runs over locals -/

theorem run_reading_bind (h : Locals → Act α) (f : α → Run β) (ρ : Locals) :
    (Run.reading h >>= f).run ρ = h ρ >>= fun a => (f a).run ρ := by
  have hread : (Run.reading h).run ρ = (fun a => (a, ρ)) <$> h ρ := rfl
  rw [StateT.run_bind, hread, bind_map_left]

theorem Does.run_bind {ρ : Locals} {x : Run α} {a : Act α} (h : Does ρ x a) (f : α → Run β) :
    (x >>= f).run ρ = a >>= fun v => (f v).run ρ := by
  unfold Does at h
  rw [StateT.run_bind, h, bind_map_left]

theorem Agree.run_bind {R : α × Locals → β × Locals → Prop} {S : γ × Locals → δ × Locals → Prop}
    {x : Run α} {y : Run β} {f : α → Run γ} {g : β → Run δ} {ρ τ : Locals}
    (h : Agree R (x.run ρ) (y.run τ))
    (k : ∀ a ρ' b τ', R (a, ρ') (b, τ') → Agree S ((f a).run ρ') ((g b).run τ')) :
    Agree S ((x >>= f).run ρ) ((y >>= g).run τ) := by
  rw [StateT.run_bind, StateT.run_bind]
  exact h.bind (fun r r' hr => k r.1 r.2 r'.1 r'.2 hr)

/-- The same action first, on the side of the tree and on that of the code. -/
theorem Agree.reading_bind {S : γ × Locals → δ × Locals → Prop} {h : Locals → Act α}
    {x : Run α} {f : α → Run γ} {g : α → Run δ} {ρ τ : Locals} (hx : Does τ x (h ρ))
    (k : ∀ a, Agree S ((f a).run ρ) ((g a).run τ)) :
    Agree S ((Run.reading h >>= f).run ρ) ((x >>= g).run τ) := by
  rw [run_reading_bind, hx.run_bind]
  refine Agree.bind (.refl _) (fun a _ ha => ?_)
  subst ha
  exact k a

/-! ## Where runs end -/

/-- How a loop ends that is itself a statement: one that is left ends
normally. -/
def Flow.outside : Flow → Flow
  | .leave => .normal
  | flow => flow

namespace Frame

/-- The frame after a statement that ends in some way: a loop that is left
clears its guard. -/
def after (guard : Option String) (flow : Flow) (K : Frame) : Frame :=
  match guard, flow with
  | some g, .leave => K.put g (.bool false)
  | _, _ => K

theorem after_normal (guard : Option String) (K : Frame) : K.after guard .normal = K := by
  cases guard <;> rfl

theorem after_ret (guard : Option String) (v : Value) (K : Frame) :
    K.after guard (.ret v) = K := by
  cases guard <;> rfl

theorem after_append (guard : Option String) (flow : Flow) (K L : Frame) :
    (K ++ L).after guard flow = K.after guard flow ++ L.after guard flow := by
  unfold after
  split
  · exact put_append _ _ K L
  · rfl

theorem length_source_after (guard : Option String) (flow : Flow) (K : Frame) :
    (K.after guard flow).source.length = K.source.length := by
  unfold after
  split
  · rw [source_put]
  · rfl

theorem length_target_after (guard : Option String) (flow : Flow) (K : Frame) :
    (K.after guard flow).target.length = K.target.length := by
  unfold after
  split
  · exact length_target_put _ _ K
  · rfl

theorem Same.after {K L : Frame} (h : Same K L) (guard : Option String) (flow : Flow) :
    Same (K.after guard flow) (L.after guard flow) := by
  unfold Frame.after
  split
  · exact h.put _ _
  · exact h

end Frame

/-- Tree and code end alike, on the two sides of the frame. -/
def Scoped (guard : Option String) (K : Frame) (r r' : Flow × Locals) : Prop :=
  r'.1 = r.1 ∧ ∃ L, Same (K.after guard r.1) L ∧ r.2 = L.source ∧ r'.2 = L.target

/-- Tree and code end alike, with new slots above the frame. -/
def Ends (guard : Option String) (K : Frame) (r r' : Flow × Locals) : Prop :=
  r'.1 = r.1 ∧ ∃ M L, Same (K.after guard r.1) L ∧ r.2 = (M ++ L).source ∧ r'.2 = (M ++ L).target

/-- Tree and code end alike, with new slots above the frame that fit the state
if the run goes on. -/
def After (s : LowerState) (K : Frame) (r r' : Flow × Locals) : Prop :=
  r'.1 = r.1 ∧ ∃ M L, Same (K.after s.loopGuard r.1) L ∧ r.2 = (M ++ L).source ∧
    r'.2 = (M ++ L).target ∧ (r.1 = .normal → Fits s (M ++ L))

/-- From every frame that fits the state, the code ends as the tree does. -/
def Simulates (x y : Run Flow) (s s' : LowerState) : Prop :=
  s.Follows s' ∧ ∀ K, Fits s K → Agree (After s' K) (x.run K.source) (y.run K.target)

section

variable {r r' : Flow × Locals}

theorem After.ends (h : After s K r r') : Ends s.loopGuard K r r' := by
  obtain ⟨hflow, M, L, hsame, hsource, htarget, _⟩ := h
  exact ⟨hflow, M, L, hsame, hsource, htarget⟩

/-- Slots that were above the frame before may count as new ones. -/
theorem Ends.append (h : Ends guard (M ++ K) r r') : Ends guard K r r' := by
  obtain ⟨hflow, N, L, hsame, hsource, htarget⟩ := h
  rw [after_append] at hsame
  obtain ⟨M', L', rfl, _, hL⟩ := hsame.append_left
  rw [← List.append_assoc] at hsource htarget
  exact ⟨hflow, N ++ M', L', hL, hsource, htarget⟩

/-- Forgetting the new slots. -/
theorem Ends.keep (h : Ends guard K r r') :
    Scoped guard K (r.1, Locals.keep K.source.length r.2)
      (r'.1, Locals.keep K.target.length r'.2) := by
  obtain ⟨hflow, M, L, hsame, hsource, htarget⟩ := h
  refine ⟨hflow, L, hsame, ?_, ?_⟩
  · rw [hsource, source_append, ← length_source_after guard r.1, hsame.length_source]
    exact Locals.keep_append _ _
  · rw [htarget, target_append, ← length_target_after guard r.1, hsame.length_target]
    exact Locals.keep_append _ _

theorem After.append (h : After s (M ++ K) r r') : After s K r r' := by
  obtain ⟨hflow, N, L, hsame, hsource, htarget, hfits⟩ := h
  rw [after_append] at hsame
  obtain ⟨M', L', rfl, _, hL⟩ := hsame.append_left
  rw [← List.append_assoc] at hsource htarget hfits
  exact ⟨hflow, N ++ M', L', hL, hsource, htarget, hfits⟩

theorem After.trans (hsame : Same K L) (h : After s L r r') : After s K r r' := by
  obtain ⟨hflow, M, N, hN, hsource, htarget, hfits⟩ := h
  exact ⟨hflow, M, N, (hsame.after s.loopGuard r.1).trans hN, hsource, htarget, hfits⟩

theorem After.follows (h : After s K r r') (hs : s.Follows s') : After s' K r r' := by
  obtain ⟨hflow, M, L, hsame, hsource, htarget, hfits⟩ := h
  exact ⟨hflow, M, L, hs.guard ▸ hsame, hsource, htarget, fun hnormal =>
    (hfits hnormal).follows hs⟩

theorem Scoped.after (hK : Fits s K) (h : Scoped s.loopGuard K r r') : After s K r r' := by
  obtain ⟨hflow, L, hsame, hsource, htarget⟩ := h
  refine ⟨hflow, [], L, hsame, hsource, htarget, fun hnormal => ?_⟩
  rw [hnormal, after_normal] at hsame
  exact hK.same hsame

/-- Outside of a loop, no guard is cleared. -/
theorem After.outside (hsame : Same K L) (hfits : Fits s (M ++ L)) (flow : Flow) :
    After s K (flow.outside, (M ++ L).source) (flow.outside, (M ++ L).target) := by
  refine ⟨rfl, M, L, ?_, rfl, rfl, fun _ => hfits⟩
  cases flow with
  | normal | leave => exact (after_normal s.loopGuard K).symm ▸ hsame
  | ret v => exact (after_ret s.loopGuard v K).symm ▸ hsame

end

/-- A scope forgets the new slots. -/
theorem Agree.inScope {x y : Run Flow}
    (h : Agree (Ends guard K) (x.run K.source) (y.run K.target)) :
    Agree (Scoped guard K) ((Run.inScope x).run K.source) ((Run.inScope y).run K.target) := by
  have hrun : ∀ (z : Run Flow) (ρ : Locals), (Run.inScope z).run ρ =
      (fun r => (r.1, Locals.keep ρ.length r.2)) <$> z.run ρ := fun _ _ => rfl
  rw [hrun, hrun]
  exact h.map (fun _ _ hr => hr.keep)

namespace Simulates

variable {x y x' y' : Run Flow}

/-- One run after the other. -/
theorem andNext (h : Simulates x y s t) (h' : Simulates x' y' t s') :
    Simulates (x.andNext x') (y.andNext y') s s' := by
  refine ⟨h.1.trans h'.1, fun K hK => (h.2 K hK).run_bind ?_⟩
  rintro flow ρ flow' τ hafter
  have hfollows := hafter.follows h'.1
  obtain ⟨hflow, M, L, hsame, hsource, htarget, hfits⟩ := hafter
  cases hflow
  cases flow with
  | normal =>
    cases hsource
    cases htarget
    rw [after_normal] at hsame
    exact (h'.2 (M ++ L) (hfits rfl)).mono (fun _ _ hr => .trans hsame (.append hr))
  | leave | ret _ => exact .pure hfollows

/-- A run in a scope of its own. -/
theorem inScope (h : Simulates x y s s') : Simulates x.inScope y.inScope s s' := by
  refine ⟨h.1, fun K hK => ?_⟩
  have hends : Agree (Ends s'.loopGuard K) (x.run K.source) (y.run K.target) :=
    (h.2 K hK).mono (fun _ _ hr => hr.ends)
  exact hends.inScope.mono (fun _ _ hr => hr.after (hK.follows h.1))

/-- What is lowered before the run changes nothing that matters to it. -/
theorem before (hs : s.Follows t) (h : Simulates x y t s') : Simulates x y s s' :=
  ⟨hs.trans h.1, fun K hK => h.2 K (hK.follows hs)⟩

/-- Nothing happens. -/
theorem nothing (s : LowerState) : Simulates (pure .normal) (pure .normal) s s := by
  refine ⟨.refl s, fun K hK => .pure ⟨rfl, [], K, ?_, rfl, rfl, fun _ => hK⟩⟩
  rw [after_normal]
  exact .refl K

end Simulates

/-! ## Loops -/

/-- How a round of a loop ends: when the test of the tree fails, the code leaves
the loop in one way or the other. -/
def RoundEnds (K : Frame) (r r' : Option Flow × Locals) : Prop :=
  (r'.1 = r.1 ∨ r.1 = none ∧ r'.1 = some .leave) ∧
    ∃ L, Same K L ∧ r.2 = L.source ∧ r'.2 = L.target

/-- Tree and code end alike, and not by leaving the loop around. -/
def Outside (K : Frame) (r r' : Flow × Locals) : Prop :=
  r'.1 = r.1 ∧ r.1.outside = r.1 ∧ ∃ L, Same K L ∧ r.2 = L.source ∧ r'.2 = L.target

theorem Outside.after {r r' : Flow × Locals} (hK : Fits s K) (h : Outside K r r') :
    After s K r r' := by
  obtain ⟨flow, ρ⟩ := r
  obtain ⟨flow', τ⟩ := r'
  obtain ⟨hflow, houtside, L, hsame, hρ, hτ⟩ := h
  cases hρ
  cases hτ
  cases hflow
  have hafter : After s K (flow.outside, L.source) (flow.outside, L.target) :=
    .outside (M := []) hsame (hK.same hsame) flow
  rw [show flow.outside = flow from houtside] at hafter
  exact hafter

/-- Loops whose rounds end alike end alike. -/
theorem Agree.loop {x y : Run (Option Flow)}
    (h : ∀ K, Fits s K → Agree (RoundEnds K) (x.run K.source) (y.run K.target)) (fuel : Nat) :
    ∀ K, Fits s K →
      Agree (Outside K) ((loop x fuel).run K.source) ((loop y fuel).run K.target) := by
  induction fuel with
  | zero => exact fun K _ => .halt .outOfFuel
  | succ fuel ih =>
    intro K hK
    refine (h K hK).run_bind ?_
    rintro o ρ o' τ ⟨hend, L, hsame, rfl, rfl⟩
    have hdone : ∀ flow : Flow, flow.outside = flow → Agree (Outside K)
        ((Pure.pure flow : Run Flow).run L.source) ((Pure.pure flow : Run Flow).run L.target) :=
      fun flow houtside => .pure ⟨rfl, houtside, L, hsame, rfl, rfl⟩
    rcases hend with rfl | ⟨rfl, rfl⟩
    · cases o' with
      | none => exact hdone .normal rfl
      | some flow =>
        cases flow with
        | normal =>
          refine (ih L (hK.same hsame)).mono ?_
          rintro r r' ⟨hflow, houtside, N, hN, hsource, htarget⟩
          exact ⟨hflow, houtside, N, hsame.trans hN, hsource, htarget⟩
        | leave => exact hdone .normal rfl
        | ret v => exact hdone (.ret v) rfl
    · exact hdone .normal rfl

end TreeLowering.Behaviour
