set_option autoImplicit false

/-!
# Association lists

Lists of keys with values in which a key occurs at most once.  What a list says
about its keys is `List.lookup`; the laws give it after each operation.
-/

namespace TreeLowering.Assoc

variable {κ α : Type} [DecidableEq κ]

/-- Forgets a key. -/
def erase (k : κ) (es : List (κ × α)) : List (κ × α) := es.filter (fun e => e.1 ≠ k)

/-- Gives a key a value, in place of any it had. -/
def set (k : κ) (a : α) (es : List (κ × α)) : List (κ × α) := (k, a) :: erase k es

theorem lookup_erase (k l : κ) (es : List (κ × α)) :
    (erase k es).lookup l = if l = k then none else es.lookup l := by
  unfold erase
  induction es with
  | nil => simp
  | cons e es ih =>
    obtain ⟨key, a⟩ := e
    by_cases hk : key = k
    · subst hk
      rw [List.filter_cons_of_neg (by simp), ih, List.lookup_cons]
      split
      · rfl
      · rename_i hl
        rw [beq_eq_false_iff_ne.2 hl]
    · rw [List.filter_cons_of_pos (by simpa using hk), List.lookup_cons, List.lookup_cons, ih]
      by_cases hl : l = key
      · subst hl
        simp [hk]
      · rw [beq_eq_false_iff_ne.2 hl]

theorem lookup_set (k l : κ) (a : α) (es : List (κ × α)) :
    (set k a es).lookup l = if l = k then some a else es.lookup l := by
  unfold set
  rw [List.lookup_cons, lookup_erase]
  by_cases h : l = k
  · simp [h]
  · rw [beq_eq_false_iff_ne.2 h, if_neg h, if_neg h]

end TreeLowering.Assoc
