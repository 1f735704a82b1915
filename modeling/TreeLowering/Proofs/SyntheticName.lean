import TreeLowering.Lowering.Scope
set_option autoImplicit false

/-!
# Proofs: synthetic names

A synthetic name is a base, a dollar sign and a number.  The number can be read
off its end, so synthetic names with different numbers are different, whatever
their bases are.
-/

namespace TreeLowering

/-- A name as it can be written in a program: without a dollar sign. -/
def Plain (name : String) : Prop := '$' ∉ name.toList

instance (name : String) : Decidable (Plain name) := inferInstanceAs (Decidable (¬ _))

/-- The synthetic name of a base and a number. -/
def synthetic (base : String) (k : Nat) : String := base ++ "$" ++ toString k

/-- A synthetic name whose number is below `n`. -/
def SyntheticBelow (n : Nat) (name : String) : Prop := ∃ base k, k < n ∧ name = synthetic base k

/-- A name that is not synthetic with the number `n` or a later one. -/
def Older (n : Nat) (name : String) : Prop := Plain name ∨ SyntheticBelow n name

theorem fresh_eq (s : NameScope) (base : String) :
    s.fresh base = (synthetic base s.next, { s with next := s.next + 1 }) := rfl

theorem toList_synthetic (base : String) (k : Nat) :
    (synthetic base k).toList = base.toList ++ '$' :: Nat.toDigits 10 k := by
  simp [synthetic, Nat.toString_eq_repr]

theorem not_plain_synthetic (base : String) (k : Nat) : ¬ Plain (synthetic base k) := by
  simp [Plain, toList_synthetic]

theorem dollar_not_mem_toDigits (k : Nat) : '$' ∉ Nat.toDigits 10 k := by
  intro hmem
  have hdigit := Nat.isDigit_of_mem_toDigits (by decide) (by decide) hmem
  contradiction

theorem toDigits_inj {j k : Nat} (h : Nat.toDigits 10 j = Nat.toDigits 10 k) : j = k := by
  rw [← Nat.ofDigitChars_ten_toDigits (n := j), h, Nat.ofDigitChars_ten_toDigits]

/-- What follows the last occurrence of an element is determined. -/
theorem tail_eq_of_append_cons_eq {α : Type} {c : α} {xs xs' : List α} :
    ∀ {ys ys' : List α}, c ∉ xs → c ∉ xs' → ys ++ c :: xs = ys' ++ c :: xs' → xs = xs'
  | [], [], _, _, h => by simpa using h
  | [], y' :: ys', hxs, _, h => by
    simp only [List.nil_append, List.cons_append, List.cons.injEq] at h
    exact absurd (h.2 ▸ List.mem_append_right ys' List.mem_cons_self) hxs
  | y :: ys, [], _, hxs', h => by
    simp only [List.nil_append, List.cons_append, List.cons.injEq] at h
    exact absurd (h.2 ▸ List.mem_append_right ys List.mem_cons_self) hxs'
  | y :: ys, y' :: ys', hxs, hxs', h => by
    simp only [List.cons_append, List.cons.injEq] at h
    exact tail_eq_of_append_cons_eq hxs hxs' h.2

theorem synthetic_number_inj {base base' : String} {j k : Nat}
    (h : synthetic base j = synthetic base' k) : j = k := by
  have hlist : (synthetic base j).toList = (synthetic base' k).toList := by rw [h]
  rw [toList_synthetic, toList_synthetic] at hlist
  exact toDigits_inj
    (tail_eq_of_append_cons_eq (dollar_not_mem_toDigits j) (dollar_not_mem_toDigits k) hlist)

/-- A new synthetic name is none of the older names. -/
theorem not_older_synthetic (base : String) (n : Nat) : ¬ Older n (synthetic base n) := by
  rintro (hplain | ⟨base', k, hlt, heq⟩)
  · exact not_plain_synthetic base n hplain
  · have := synthetic_number_inj heq
    omega

theorem SyntheticBelow.mono {n m : Nat} {name : String} (h : SyntheticBelow n name)
    (hle : n ≤ m) : SyntheticBelow m name := by
  obtain ⟨base, k, hlt, heq⟩ := h
  exact ⟨base, k, Nat.lt_of_lt_of_le hlt hle, heq⟩

theorem SyntheticBelow.not_plain {n : Nat} {name : String} (h : SyntheticBelow n name) :
    ¬ Plain name := by
  obtain ⟨base, k, _, rfl⟩ := h
  exact not_plain_synthetic base k

theorem Older.mono {n m : Nat} {name : String} (h : Older n name) (hle : n ≤ m) :
    Older m name :=
  h.imp id (fun hs => hs.mono hle)

end TreeLowering
