import TreeLowering.Lowering.Widening
set_option autoImplicit false

/-!
# Proofs: same bounds

Bounds are compared by taking each one of the first parameter out of what
remains of those of the second.  Taking a bound out leaves the others in some
order, which does not matter for what can be taken out of them next: everything
is taken out exactly when the bounds of the one parameter, repetitions counted,
are those of the other.
-/

namespace TreeLowering

namespace Model

variable {α : Type} {t : α} {ts remaining : List α}

/-! ## Taking an element out -/

theorem swapRemove_last (before : List α) (t : α) :
    swapRemove (before ++ [t]) before.length = before := by
  simp [swapRemove]

theorem swapRemove_inner (before after : List α) (t last : α) :
    swapRemove (before ++ t :: (after ++ [last])) before.length = before ++ last :: after := by
  have hlast : (before ++ t :: (after ++ [last])).getLast? = some last := by
    simp [List.getLast?_append, List.getLast?_cons]
  have hset : (before ++ t :: (after ++ [last])).set before.length last =
      (before ++ last :: after) ++ [last] := by
    simp [List.set_append_right]
  rw [swapRemove, hlast]
  simp only [hset, List.dropLast_concat]

/-- What is taken out and what remains are what was there. -/
theorem cons_swapRemove_perm {i : Nat} (h : ts[i]? = some t) :
    (t :: swapRemove ts i).Perm ts := by
  obtain ⟨hlt, hat⟩ := List.getElem?_eq_some_iff.mp h
  -- the element stands between those before it and those after it
  have hsplit : ts = ts.take i ++ t :: ts.drop (i + 1) := by
    rw [← hat, List.getElem_cons_drop, List.take_append_drop]
  have hlength : (ts.take i).length = i := List.length_take_of_le (Nat.le_of_lt hlt)
  generalize ts.take i = before at hsplit hlength
  generalize ts.drop (i + 1) = after at hsplit
  subst hsplit hlength
  obtain rfl | ⟨inner, last, rfl⟩ := List.eq_nil_or_concat after
  · rw [swapRemove_last]
    exact (List.perm_append_singleton t before).symm
  · rw [List.concat_eq_append, swapRemove_inner]
    calc (t :: (before ++ last :: inner)).Perm (t :: (before ++ (inner ++ [last]))) :=
          ((List.perm_append_singleton last inner).symm.append_left before).cons t
      _ |>.Perm (before ++ t :: (inner ++ [last])) := List.perm_middle.symm

/-! ## The comparison -/

/-- As many elements as there are can be taken out exactly when they are the same
ones, each as often. -/
theorem takesOut_iff_perm [DecidableEq α] (h : ts.length = remaining.length) :
    takesOut ts remaining = true ↔ ts.Perm remaining := by
  induction ts generalizing remaining with
  | nil =>
    obtain rfl := List.length_eq_zero_iff.mp h.symm
    exact iff_of_true rfl .nil
  | cons t ts ih =>
    rw [takesOut]
    cases hfound : remaining.idxOf? t with
    | none =>
      have hmissing : t ∉ remaining := List.idxOf?_eq_none_iff.mp hfound
      refine iff_of_false Bool.false_ne_true fun hperm => hmissing ?_
      exact hperm.mem_iff.mp List.mem_cons_self
    | some i =>
      obtain ⟨hlt, hat, -⟩ := List.idxOf?_eq_some_iff.mp hfound
      have hout : (t :: swapRemove remaining i).Perm remaining :=
        cons_swapRemove_perm (List.getElem?_eq_some_iff.mpr ⟨hlt, hat⟩)
      have hlength : ts.length = (swapRemove remaining i).length :=
        Nat.succ.inj (h.trans hout.length_eq.symm)
      calc takesOut ts (swapRemove remaining i) = true
          ↔ ts.Perm (swapRemove remaining i) := ih hlength
        _ ↔ (t :: ts).Perm (t :: swapRemove remaining i) := (List.perm_cons t).symm
        _ ↔ (t :: ts).Perm remaining := ⟨(·.trans hout), (·.trans hout.symm)⟩

variable (m : Model) (p q : ParamId)

theorem haveSameBounds_iff :
    m.haveSameBounds p q = true ↔ (m.param p).bounds.Perm (m.param q).bounds := by
  simp only [haveSameBounds, Bool.and_eq_true, beq_iff_eq]
  constructor
  · rintro ⟨hlength, hout⟩
    exact (takesOut_iff_perm hlength).mp hout
  · intro hperm
    exact ⟨hperm.length_eq, (takesOut_iff_perm hperm.length_eq).mpr hperm⟩

theorem haveSameBounds_self : m.haveSameBounds p p = true :=
  (haveSameBounds_iff m p p).mpr (.refl _)

theorem haveSameBounds_equivalence : Equivalence fun p q => m.haveSameBounds p q = true where
  refl := haveSameBounds_self m
  symm {p q} h := (haveSameBounds_iff m q p).mpr ((haveSameBounds_iff m p q).mp h).symm
  trans {p q r} h h' := (haveSameBounds_iff m p r).mpr
    (((haveSameBounds_iff m p q).mp h).trans ((haveSameBounds_iff m q r).mp h'))

/-- Bounds that are written in another order compare the same. -/
theorem haveSameBounds_congr {m m' : Model} {p p' q q' : ParamId}
    (hp : (m.param p).bounds.Perm (m'.param p').bounds)
    (hq : (m.param q).bounds.Perm (m'.param q').bounds) :
    m.haveSameBounds p q = m'.haveSameBounds p' q' := by
  rw [Bool.eq_iff_iff, haveSameBounds_iff, haveSameBounds_iff]
  exact ⟨fun h => (hp.symm.trans h).trans hq, fun h => (hp.trans h).trans hq.symm⟩

/-- Two type parameters have the same bounds exactly when the bounds of the one
are a permutation of the bounds of the other, repetitions counted.  So every
parameter has the same bounds as itself, which of the two comes first does not
matter, two that have the same bounds as a third have the same as each other, and
no order in which bounds are written changes the outcome. -/
theorem haveSameBounds_multiset (m : Model) :
    (∀ p q, m.haveSameBounds p q = true ↔ (m.param p).bounds.Perm (m.param q).bounds) ∧
      (Equivalence fun p q => m.haveSameBounds p q = true) ∧
      ∀ (m' : Model) (p q p' q' : ParamId),
        (m.param p).bounds.Perm (m'.param p').bounds →
        (m.param q).bounds.Perm (m'.param q').bounds →
        m.haveSameBounds p q = m'.haveSameBounds p' q' :=
  ⟨haveSameBounds_iff m, haveSameBounds_equivalence m, fun _ _ _ _ _ => haveSameBounds_congr⟩

/-- A class whose parameters are bounded by the same two types, the first two
parameters by the one of them twice, the third by the other. -/
def repeatedBounds : Model where
  decls := #[
    { Declaration.bare "Owner" .cls "demo" none with typeParams := [⟨10⟩, ⟨11⟩, ⟨12⟩] }]
  params := #[
    ⟨"P", .invariant, [Language.stringTy, Language.identifiableTy, Language.stringTy], ⟨22⟩, false⟩,
    ⟨"Q", .invariant, [Language.identifiableTy, Language.stringTy, Language.stringTy], ⟨22⟩, false⟩,
    ⟨"R", .invariant, [Language.identifiableTy, Language.stringTy, Language.identifiableTy], ⟨22⟩,
      false⟩]

/-- The first two parameters have the same bounds, so that they compare alike with
the third, which has not. -/
theorem repeatedBounds_compared :
    (repeatedBounds.param ⟨10⟩).bounds.Perm (repeatedBounds.param ⟨11⟩).bounds ∧
      repeatedBounds.haveSameBounds ⟨10⟩ ⟨11⟩ = true ∧
      repeatedBounds.haveSameBounds ⟨10⟩ ⟨12⟩ = repeatedBounds.haveSameBounds ⟨11⟩ ⟨12⟩ ∧
      repeatedBounds.haveSameBounds ⟨11⟩ ⟨12⟩ = false := by
  obtain ⟨hiff, -, hcongr⟩ := haveSameBounds_multiset repeatedBounds
  have hperm : (repeatedBounds.param ⟨10⟩).bounds.Perm (repeatedBounds.param ⟨11⟩).bounds :=
    .swap Language.identifiableTy Language.stringTy [Language.stringTy]
  exact ⟨hperm, (hiff ⟨10⟩ ⟨11⟩).mpr hperm,
    hcongr repeatedBounds ⟨10⟩ ⟨12⟩ ⟨11⟩ ⟨12⟩ hperm (.refl _), by decide⟩

end Model

end TreeLowering
