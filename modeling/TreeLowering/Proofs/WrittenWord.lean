set_option autoImplicit false

/-!
# Proofs: words and lists in written code

Written code is read back piece by piece.  A piece whose characters satisfy a
condition ends where the first one that does not stands, so that it is determined
together with what follows.  A list with a separator between its members is read
member by member, up to the bracket that closes it.
-/

namespace TreeLowering.Text

/-! ## Runs of characters -/

/-- What follows does not start with a character of the kind. -/
def StopsAt (p : Char → Bool) (rest : List Char) : Prop := ∀ c ∈ rest.head?, p c = false

theorem stopsAt_nil (p : Char → Bool) : StopsAt p [] := fun c hc => by cases hc

theorem stopsAt_cons {p : Char → Bool} {c : Char} {rest : List Char} :
    StopsAt p (c :: rest) ↔ p c = false := by
  simp [StopsAt]

/-- A run of characters of a kind and what follows it are determined. -/
theorem run_append_inj {p : Char → Bool} :
    ∀ {w w' r r' : List Char}, (∀ c ∈ w, p c = true) → (∀ c ∈ w', p c = true) →
      StopsAt p r → StopsAt p r' → w ++ r = w' ++ r' → w = w' ∧ r = r'
  | [], [], _, _, _, _, _, _, h => ⟨rfl, h⟩
  | [], c :: w', r, r', _, hw', hr, _, h => by
    have hc := hw' c List.mem_cons_self
    rw [List.nil_append, List.cons_append] at h
    rw [h, stopsAt_cons, hc] at hr
    contradiction
  | c :: w, [], r, r', hw, _, _, hr', h => by
    have hc := hw c List.mem_cons_self
    rw [List.nil_append, List.cons_append] at h
    rw [← h, stopsAt_cons, hc] at hr'
    contradiction
  | c :: w, c' :: w', r, r', hw, hw', hr, hr', h => by
    obtain ⟨rfl, htail⟩ := List.cons.inj h
    obtain ⟨rfl, rfl⟩ := run_append_inj (fun x hx => hw x (List.mem_cons_of_mem _ hx))
      (fun x hx => hw' x (List.mem_cons_of_mem _ hx)) hr hr' htail
    exact ⟨rfl, rfl⟩

/-! ## Words -/

/-- A character of a word: a letter, a digit, an underscore or a dollar sign, or any
character beyond the first 128. -/
def isWordChar (c : Char) : Bool := c.isAlphanum || c == '_' || c == '$' || 128 ≤ c.toNat

/-- A character of a word with points in it. -/
def isDottedChar (c : Char) : Bool := isWordChar c || c == '.'

/-- The name is an identifier: it has a character, all of them may stand in words, and
the first one is no digit. -/
def IsIdentifier (name : String) : Prop :=
  name.toList ≠ [] ∧ (∀ c ∈ name.toList, isWordChar c = true) ∧
    StopsAt Char.isDigit name.toList

instance (p : Char → Bool) : (rest : List Char) → Decidable (StopsAt p rest)
  | [] => .isTrue (stopsAt_nil p)
  | _ :: _ => decidable_of_iff _ stopsAt_cons.symm

instance (name : String) : Decidable (IsIdentifier name) :=
  decidable_of_iff
    (name.toList ≠ [] ∧ name.toList.all isWordChar = true ∧ StopsAt Char.isDigit name.toList)
    (by rw [IsIdentifier, List.all_eq_true])

/-- An identifier starts with a character of a word that is no digit. -/
theorem IsIdentifier.exists_cons {name : String} (h : IsIdentifier name) :
    ∃ c cs, name.toList = c :: cs ∧ isWordChar c = true ∧ c.isDigit = false := by
  obtain ⟨hne, hword, hdigit⟩ := h
  cases hname : name.toList with
  | nil => exact absurd hname hne
  | cons c cs =>
    rw [hname] at hword hdigit
    exact ⟨c, cs, rfl, hword c List.mem_cons_self, stopsAt_cons.mp hdigit⟩

theorem isWordChar_of_isDigit {c : Char} (h : c.isDigit = true) : isWordChar c = true := by
  simp [isWordChar, Char.isAlphanum, h]

/-! ## Lists with a separator between their members -/

section

variable {α β : Type} {f : α → List Char} {g : α → β} {P : α → Prop} {E : List Char → Prop}
  {sep : List Char} {n : Nat}

/-- The members of a list after the first one, each with the separator before it. -/
def listRest (f : α → List Char) (sep : List Char) (xs : List α) : List Char :=
  xs.flatMap fun x => sep ++ f x

theorem listRest_cons_append (x : α) (xs : List α) (r : List Char) :
    listRest f sep (x :: xs) ++ r = sep ++ (f x ++ (listRest f sep xs ++ r)) := by
  simp [listRest]

theorem intercalate_map_cons (x : α) (xs : List α) :
    sep.intercalate ((x :: xs).map f) = f x ++ listRest f sep xs := by
  induction xs generalizing x with
  | nil => simp [listRest]
  | cons y ys ih =>
    have hrest := ih y
    simp only [List.map_cons, List.intercalate_cons_cons] at hrest ⊢
    rw [hrest]
    simp [listRest]

theorem intercalate_append_singleton {xs : List (List Char)} (hne : xs ≠ []) (x : List Char) :
    sep.intercalate (xs ++ [x]) = sep.intercalate xs ++ (sep ++ x) := by
  induction xs with
  | nil => contradiction
  | cons y ys ih =>
    cases ys with
    | nil => simp
    | cons z zs =>
      have hrest := ih (List.cons_ne_nil z zs)
      simp only [List.cons_append, List.intercalate_cons_cons] at hrest ⊢
      rw [hrest]
      simp

/-- A list backwards is a list of its members backwards. -/
theorem reverse_intercalate (sep : List Char) (xs : List (List Char)) :
    (sep.intercalate xs).reverse = sep.reverse.intercalate (xs.reverse.map List.reverse) := by
  induction xs with
  | nil => rfl
  | cons x xs ih =>
    cases xs with
    | nil => simp
    | cons y ys =>
      rw [List.intercalate_cons_cons, List.reverse_append, List.reverse_append, ih,
        List.reverse_cons (a := x), List.map_append, List.map_cons, List.map_nil,
        intercalate_append_singleton (by simp)]

/-- Members that are written with fewer than the given number of characters, all that
follows included, can be read: where something follows that may follow a member, what
matters of the member and what follows it are determined. -/
def ReadsMembers (f : α → List Char) (g : α → β) (P : α → Prop) (E : List Char → Prop)
    (n : Nat) : Prop :=
  ∀ ⦃x x' r r'⦄, P x → P x' → (f x ++ r).length < n → E r → E r' → f x ++ r = f x' ++ r' →
    g x = g x' ∧ r = r'

/-- The end of a list may follow a member, and does not start like a separator. -/
def EndsList (E : List Char → Prop) (sep r : List Char) : Prop := E r ∧ ∀ s, r ≠ sep ++ s

theorem EndsList.listRest_append {r : List Char} (hr : EndsList E sep r)
    (hsep : ∀ s, E (sep ++ s)) (xs : List α) : E (listRest f sep xs ++ r) := by
  cases xs with
  | nil => exact hr.1
  | cons x xs =>
    rw [listRest_cons_append]
    exact hsep _

theorem listRest_append_inj (hread : ReadsMembers f g P E n) (hsep : ∀ s, E (sep ++ s))
    {r r' : List Char} (hr : EndsList E sep r) (hr' : EndsList E sep r') :
    ∀ {xs xs' : List α}, (∀ x ∈ xs, P x) → (∀ x ∈ xs', P x) →
      (listRest f sep xs ++ r).length < n →
        listRest f sep xs ++ r = listRest f sep xs' ++ r' → xs.map g = xs'.map g ∧ r = r'
  | [], [], _, _, _, h => ⟨rfl, h⟩
  | [], _ :: _, _, _, _, h => by
    rw [listRest_cons_append] at h
    exact absurd h (hr.2 _)
  | _ :: _, [], _, _, _, h => by
    rw [listRest_cons_append] at h
    exact absurd h.symm (hr'.2 _)
  | x :: xs, x' :: xs', hxs, hxs', hlen, h => by
    rw [listRest_cons_append, List.length_append] at hlen
    rw [listRest_cons_append, listRest_cons_append] at h
    obtain ⟨hx, hrest⟩ := hread (hxs x List.mem_cons_self) (hxs' x' List.mem_cons_self)
      (by omega) (hr.listRest_append hsep xs) (hr'.listRest_append hsep xs')
      (List.append_cancel_left h)
    rw [List.length_append] at hlen
    obtain ⟨htail, hend⟩ := listRest_append_inj hread hsep hr hr'
      (fun y hy => hxs y (List.mem_cons_of_mem _ hy))
      (fun y hy => hxs' y (List.mem_cons_of_mem _ hy)) (by omega) hrest
    exact ⟨by rw [List.map_cons, List.map_cons, hx, htail], hend⟩

/-- A list that is not empty is read up to its end. -/
theorem list_append_inj (hread : ReadsMembers f g P E n) (hsep : ∀ s, E (sep ++ s))
    {r r' : List Char} (hr : EndsList E sep r) (hr' : EndsList E sep r') {xs xs' : List α}
    (hne : xs ≠ []) (hne' : xs' ≠ []) (hxs : ∀ x ∈ xs, P x) (hxs' : ∀ x ∈ xs', P x)
    (hlen : (sep.intercalate (xs.map f) ++ r).length < n)
    (h : sep.intercalate (xs.map f) ++ r = sep.intercalate (xs'.map f) ++ r') :
    xs.map g = xs'.map g ∧ r = r' := by
  obtain ⟨x, xs, rfl⟩ := List.exists_cons_of_ne_nil hne
  obtain ⟨x', xs', rfl⟩ := List.exists_cons_of_ne_nil hne'
  rw [intercalate_map_cons, List.append_assoc] at hlen
  rw [intercalate_map_cons, intercalate_map_cons, List.append_assoc, List.append_assoc] at h
  obtain ⟨hx, hrest⟩ := hread (hxs x List.mem_cons_self) (hxs' x' List.mem_cons_self) hlen
    (hr.listRest_append hsep xs) (hr'.listRest_append hsep xs') h
  rw [List.length_append] at hlen
  obtain ⟨htail, hend⟩ := listRest_append_inj hread hsep hr hr'
    (fun y hy => hxs y (List.mem_cons_of_mem _ hy))
    (fun y hy => hxs' y (List.mem_cons_of_mem _ hy)) (by omega) hrest
  exact ⟨by rw [List.map_cons, List.map_cons, hx, htail], hend⟩

end

/-! ## Lists in brackets -/

section

variable {α : Type} {f : α → List Char} {P : α → Prop} {close : Char} {n : Nat}

/-- Members of a list with a comma between them. -/
def commaList (texts : List (List Char)) : List Char := [',', ' '].intercalate texts

/-- A comma or the closing bracket follows. -/
def EndsMember (close : Char) (r : List Char) : Prop :=
  r.head? = some ',' ∨ r.head? = some close

/-- A list in brackets whose members do not start with the closing one is read up to
that bracket. -/
theorem commaList_append_inj (hread : ReadsMembers f id P (EndsMember close) n)
    (hclose : close ≠ ',') (hstart : ∀ x, P x → ∀ r, (f x ++ r).head? ≠ some close)
    {xs xs' : List α} {r r' : List Char} (hxs : ∀ x ∈ xs, P x) (hxs' : ∀ x ∈ xs', P x)
    (hlen : (commaList (xs.map f) ++ close :: r).length < n)
    (h : commaList (xs.map f) ++ close :: r = commaList (xs'.map f) ++ close :: r') :
    xs = xs' ∧ r = r' := by
  have hends : ∀ s, EndsList (EndsMember close) [',', ' '] (close :: s) := fun s =>
    ⟨.inr rfl, fun s' hs => hclose (List.cons.inj hs).1⟩
  have hempty : ∀ {y : α} {ys : List α} {s s' : List Char}, (∀ x ∈ y :: ys, P x) →
      close :: s ≠ commaList ((y :: ys).map f) ++ s' := by
    intro y ys s s' hys hs
    rw [commaList, intercalate_map_cons, List.append_assoc] at hs
    exact hstart y (hys y List.mem_cons_self) _ (by rw [← hs]; rfl)
  cases xs with
  | nil =>
    cases xs' with
    | nil => exact ⟨rfl, (List.cons.inj h).2⟩
    | cons x' xs' => exact absurd h (hempty hxs')
  | cons x xs =>
    cases xs' with
    | nil => exact absurd h.symm (hempty hxs)
    | cons x' xs' =>
      obtain ⟨hlists, hend⟩ := list_append_inj hread (fun _ => .inl rfl) (hends r) (hends r')
        (List.cons_ne_nil _ _) (List.cons_ne_nil _ _) hxs hxs' hlen h
      rw [List.map_id, List.map_id] at hlists
      exact ⟨hlists, (List.cons.inj hend).2⟩

end

end TreeLowering.Text
