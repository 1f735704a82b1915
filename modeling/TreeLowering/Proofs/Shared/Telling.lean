import TreeLowering.Proofs.Shared.Tables
set_option autoImplicit false

/-!
# Proofs: what a computation over tables tells

A computation tells something when, started in any tables that the given ones grow
to, it answers with what stands for it, or runs out of positions or names.  There is
one rule for each way of putting a computation together.
-/

namespace TreeLowering.Shared

open Tables
open TreeLowering.Pooled (Leads)

namespace Tabled

variable {α β γ δ : Type} {t u v : Tables} {i j : TypeIdx} {n : Name} {τ σ : Ty} {x : String}
  {S : Tables → α → β → Prop} {R : Tables → γ → δ → Prop} {a : α} {b : β} {c : Tabled α} {e : δ}

/-- The computation ran out of room, or it gave an answer that stands for `b` in
tables that have grown. -/
def Ends (S : Tables → α → β → Prop) (b : β) (u : Tables) : Except Halt (α × Tables) → Prop
  | .ok (a, v) => u.Within v ∧ v.Sound ∧ S v a b
  | .error h => ∃ v : Tables, v.Full ∧ h = .full v

/-- Wherever the tables have grown to, the computation ends with what stands for
`b`. -/
def Tells (t : Tables) (c : Tabled α) (S : Tables → α → β → Prop) (b : β) : Prop :=
  ∀ u, t.Within u → u.Sound → Ends S b u (c u)

/-- The computation answers with the given value. -/
abbrev Says (t : Tables) (c : Tabled α) (a : α) : Prop := Tells t c Same a

theorem run_bind (c : Tabled α) (f : α → Tabled γ) (u : Tables) :
    (c >>= f) u = (c u).bind fun out => f out.1 out.2 := rfl

namespace Tells

theorem later (h : Tells t c S b) (hu : t.Within u) : Tells u c S b :=
  fun v hv hsound => h v (hu.trans hv) hsound

theorem pure [Stays S] (h : S t a b) : Tells t (Pure.pure a) S b :=
  fun u hu hsound => ⟨.refl u, hsound, Stays.mono h hu⟩

/-- What the tables have grown to may be known to be sound. -/
theorem sound (h : ∀ u, t.Within u → u.Sound → Tells u c S b) : Tells t c S b :=
  fun u hu hsound => h u hu hsound u (.refl u) hsound

theorem bind {f : α → Tabled γ} (h : Tells t c S b)
    (hf : ∀ u a, t.Within u → u.Sound → S u a b → Tells u (f a) R e) :
    Tells t (c >>= f) R e := by
  intro u hu hsound
  have hends := h u hu hsound
  rw [run_bind]
  generalize c u = out at hends
  match out, hends with
  | .error _, hends => exact hends
  | .ok (a, v), ⟨hv, hsound, ha⟩ =>
    have hrest := hf v a (hu.trans hv) hsound ha v (.refl v) hsound
    show Ends R e u (f a v)
    generalize f a v = out at hrest
    match out, hrest with
    | .error _, hrest => exact hrest
    | .ok (_, w), ⟨hw, hsound, hb⟩ => exact ⟨hv.trans hw, hsound, hb⟩

/-- What stands for one thing may be known to stand for another. -/
theorem imp {P : Tables → α → δ → Prop} (h : Tells t c S b) (hP : ∀ u a, S u a b → P u a e) :
    Tells t c P e := by
  intro u hu hsound
  have hends := h u hu hsound
  generalize c u = out at hends ⊢
  match out, hends with
  | .error _, hends => exact hends
  | .ok (a, v), ⟨hv, hsound, ha⟩ => exact ⟨hv, hsound, hP v a ha⟩

theorem map {f : α → γ} (h : Tells t c S b)
    (hf : ∀ u a, t.Within u → u.Sound → S u a b → R u (f a) e) : Tells t (f <$> c) R e := by
  intro u hu hsound
  have hends := h u hu hsound
  show Ends R e u ((c u).map fun out => (f out.1, out.2))
  generalize c u = out at hends
  match out, hends with
  | .error _, hends => exact hends
  | .ok (a, v), ⟨hv, hsound', ha⟩ => exact ⟨hv, hsound', hf v a (hu.trans hv) hsound' ha⟩

theorem ite {q : Tabled Bool} {yes : Bool} {d f : Tabled α} (h : Says t q yes)
    (hyes : yes = true → Tells t d S b) (hno : yes = false → Tells t f S b) :
    Tells t (q >>= fun a => if a = true then d else f) S b := by
  refine h.bind fun u a hu _ ha => ?_
  obtain rfl : a = yes := ha
  cases a with
  | true => exact (hyes rfl).later hu
  | false => exact (hno rfl).later hu

/-- A question on which the other side decides the same way. -/
theorem ite' {q : Tabled Bool} {yes : Bool} {d f : Tabled α} {b b' : β} (h : Says t q yes)
    (hyes : yes = true → Tells t d S b) (hno : yes = false → Tells t f S b') :
    Tells t (q >>= fun a => if a = true then d else f) S (if yes = true then b else b') := by
  refine h.ite (fun hb => ?_) fun hb => ?_
  · rw [if_pos hb]
    exact hyes hb
  · rw [if_neg (by simp [hb])]
    exact hno hb

theorem reading {f : Tables → α} (h : ∀ u, t.Within u → u.Sound → S u (f u) b) :
    Tells t (Tabled.reading f) S b :=
  fun u hu hsound => ⟨.refl u, hsound, h u hu hsound⟩

theorem nodeAt (hi : t.HasTy i τ) : Tells t (Tabled.nodeAt i) Holds τ :=
  reading fun _ hu hsound => (hi.mono hu).holds hsound

theorem textOf (hn : t.HasName n x) : Says t (Tabled.textOf n) x :=
  reading fun _ hu _ => (hn.mono hu).lookup

/-- Building types runs out of positions, or it leads to a pool as described. -/
theorem building {c : Pooled α}
    (h : ∀ u, t.Within u → u.Sound → (∃ a q, c u.pool = some (a, q)) ∧
      Leads TypePool.Sound c u.pool fun a q => S ⟨q, u.names⟩ a b) :
    Tells t (Tabled.building c) S b := by
  intro u hu hsound
  obtain ⟨⟨a, q, hrun⟩, hleads⟩ := h u hu hsound
  unfold Tabled.building
  rw [hrun]
  dsimp only
  split
  · next hsize =>
    obtain ⟨hgrows, hpool, ha⟩ := hleads a q hrun hsize
    exact ⟨⟨hgrows, .refl _⟩, ⟨hpool, hsound.names, hsound.few⟩, ha⟩
  · next hsize => exact ⟨_, .inl (Nat.lt_of_not_le hsize), rfl⟩

theorem make {n : TypeNode} (hn : t.Holds n τ) : Tells t (Tabled.make n) HasTy τ := by
  refine building fun u hu hsound => ⟨⟨_, _, rfl⟩, ?_⟩
  obtain ⟨hhas, hread⟩ := (hn.mono hu).reads
  rw [← hread]
  exact .intern hsound.pool hhas

theorem intern (x : String) : Tells t (Tabled.intern x) HasName x := by
  intro u hu hsound
  unfold Tabled.intern
  have hwithin := u.names.within_tryIntern x
  have hnames := hsound.names.tryIntern x
  obtain ⟨n, hknown, hrun⟩ | ⟨hnew, hroom, hrun⟩ | ⟨_, hfull, hrun⟩ := u.names.tryIntern_cases x
  · rw [hrun]
    exact ⟨.refl u, hsound, (hsound.names.inverse x n).mp hknown⟩
  · rw [hrun] at hwithin hnames ⊢
    refine ⟨⟨.refl, hwithin⟩, ⟨hsound.pool, hnames, ?_⟩, ?_⟩
    · rw [Interner.size_add]
      exact hroom
    · exact Interner.stores_add.mpr (by rw [if_pos rfl])
  · rw [hrun]
    exact ⟨u, .inr hfull, rfl⟩

/-! ## Several answers -/

section Booleans

variable {q r : Tabled Bool} {yes other : Bool}

theorem both (h : Says t q yes) (hr : yes = true → Says t r other) :
    Says t (Tabled.both q r) (yes && other) := by
  refine h.ite (fun hyes => ?_) fun hno => ?_
  · rw [hyes, Bool.true_and]
    exact hr hyes
  · rw [hno, Bool.false_and]
    exact pure rfl

theorem either (h : Says t q yes) (hr : yes = false → Says t r other) :
    Says t (Tabled.either q r) (yes || other) := by
  refine h.ite (fun hyes => ?_) fun hno => ?_
  · rw [hyes, Bool.true_or]
    exact pure rfl
  · rw [hno, Bool.false_or]
    exact hr hno

theorem no (h : Says t q yes) : Says t (Tabled.no q) (!yes) :=
  h.map fun _ _ _ _ ha => congrArg not ha

end Booleans

section Lists

variable {as : List α} {bs : List β}

theorem anyOf {f : α → Tabled Bool} {g : β → Bool} (has : Each S t as bs)
    (h : ∀ a b, S t a b → Says t (f a) (g b)) : Says t (Tabled.anyOf f as) (bs.any g) := by
  induction has with
  | nil => exact pure rfl
  | cons hab _ ih => exact (h _ _ hab).either fun _ => ih

theorem findOf [Stays S] {f : α → Tabled Bool} {g : β → Bool} (has : Each S t as bs)
    (h : ∀ a b, S t a b → Says t (f a) (g b)) :
    Tells t (Tabled.findOf f as) (Maybe S) (bs.find? g) := by
  induction has with
  | nil => exact pure .none
  | @cons a b as bs hab _ ih =>
    rw [List.find?_cons]
    refine (h a b hab).ite (fun hb => ?_) fun hb => ?_
    · rw [hb]
      exact pure (.some hab)
    · rw [hb]
      exact ih

theorem firstOf [Stays R] {f : α → Tabled (Option γ)} {g : β → Option δ} (has : Each S t as bs)
    (h : ∀ a b, S t a b → Tells t (f a) (Maybe R) (g b)) :
    Tells t (Tabled.firstOf f as) (Maybe R) (bs.findSome? g) := by
  induction has with
  | nil => exact pure .none
  | @cons a b as bs hab _ ih =>
    rw [List.findSome?_cons]
    refine (h a b hab).bind fun u found hu _ hfound => ?_
    cases hb : g b with
    | none =>
      rw [hb] at hfound
      cases hfound
      exact ih.later hu
    | some e =>
      rw [hb] at hfound
      cases hfound with
      | some hc => exact pure (.some hc)

theorem allOf [Stays R] {f : α → Tabled (Option γ)} {g : β → Option δ} (has : Each S t as bs)
    (h : ∀ a b, S t a b → Tells t (f a) (Maybe R) (g b)) :
    Tells t (Tabled.allOf f as) (Maybe (Each R)) (bs.mapM g) := by
  induction has with
  | nil => exact pure (.some .nil)
  | @cons a b as bs hab _ ih =>
    rw [List.mapM_cons]
    refine (h a b hab).bind fun u found hu _ hfound => ?_
    cases hb : g b with
    | none =>
      rw [hb] at hfound
      cases hfound
      exact pure .none
    | some e =>
      rw [hb] at hfound
      cases hfound with
      | @some c _ hc =>
        refine (ih.later hu).map fun v cs hv _ hcs => ?_
        cases hm : bs.mapM g with
        | none =>
          rw [hm] at hcs
          cases hcs
          exact .none
        | some es =>
          rw [hm] at hcs
          cases hcs with
          | some hcs => exact .some (.cons (Stays.mono hc hv) hcs)

theorem each [Stays R] {f : α → Tabled γ} {g : β → δ} (has : Each S t as bs)
    (h : ∀ a b, S t a b → Tells t (f a) R (g b)) :
    Tells t (Tabled.each f as) (Each R) (bs.map g) := by
  induction has with
  | nil => exact pure .nil
  | cons hab _ ih =>
    refine (h _ _ hab).bind fun u c hu _ hc => (ih.later hu).bind fun v cs hv _ hcs => ?_
    exact pure (.cons (Stays.mono hc hv) hcs)

theorem only [Stays S] {f : α → Tabled Bool} {g : β → Bool} (has : Each S t as bs)
    (h : ∀ a b, S t a b → Says t (f a) (g b)) :
    Tells t (Tabled.only f as) (Each S) (bs.filter g) := by
  induction has with
  | nil => exact pure .nil
  | @cons a b as bs hab _ ih =>
    refine (h a b hab).bind fun u keeps hu _ hkeeps =>
      (ih.later hu).bind fun v rest hv _ hrest => ?_
    obtain rfl : keeps = g b := hkeeps
    rw [List.filter_cons]
    split
    · exact pure (.cons (Stays.mono hab (hu.trans hv)) hrest)
    · exact pure hrest

end Lists

end Tells

end Tabled

end TreeLowering.Shared
