import Mathlib.Tactic.ByContra
import TreeLowering.Proofs.OperatorSpine
import TreeLowering.Proofs.SyntheticName
set_option autoImplicit false

/-!
# Proofs: written operators are read in one way

How tightly a suffix binds can be seen from how it is written.  An operand demands that
what it contains binds tightly enough, and what follows an operand binds less tightly than
that.  So where an operand ends is determined, and with it its head, its suffixes and what
follows it.
-/

namespace TreeLowering.Target

open Text

/-! ## What follows an operand -/

/-- A character of a name or of a number. -/
def isAtomChar (c : Char) : Bool := isWordChar c || c == '-'

/-- How tightly an expression binds that goes on with a space and with what follows it. -/
def levelAfterSpace : List Char → Nat
  | '+' :: _ | '-' :: _ => 10
  | '*' :: _ => 11
  | '=' :: '=' :: _ | '!' :: _ => 7
  | '=' :: _ => 1
  | '<' :: _ | '>' :: _ | 'i' :: _ => 8
  | '&' :: _ => 4
  | '|' :: _ => 3
  | '?' :: _ => 2
  | _ => 0

/-- How tightly an expression binds that goes on with what follows; more tightly than any
expression, if it goes on with a name or a call. -/
def levelAfter : List Char → Nat
  | [] => 0
  | '.' :: _ | '[' :: _ => 15
  | ' ' :: rest => levelAfterSpace rest
  | c :: _ => if c = '(' || isAtomChar c then 16 else 0

theorem Suffix.levelAfter_chars_append (s : Suffix) (r : List Char) :
    levelAfter (s.chars ++ r) = s.level := by
  cases s with
  | op o _ => cases o <;> rfl
  | _ => rfl

theorem stopsAt_isAtomChar {r : List Char} (h : levelAfter r < 16) : StopsAt isAtomChar r := by
  unfold levelAfter at h
  split at h
  · exact stopsAt_nil _
  · exact stopsAt_cons.mpr (by decide)
  · exact stopsAt_cons.mpr (by decide)
  · exact stopsAt_cons.mpr (by decide)
  · rename_i c _ _ _ _
    split at h
    · contradiction
    · rename_i hc
      simp only [Bool.or_eq_true, decide_eq_true_eq, not_or, Bool.not_eq_true] at hc
      exact stopsAt_cons.mpr hc.2

theorem stopsAt_isDottedChar {r : List Char} (h : levelAfter r < 15) :
    StopsAt isDottedChar r := by
  have hatom := stopsAt_isAtomChar (Nat.lt_succ_of_lt h)
  cases r with
  | nil => exact stopsAt_nil _
  | cons c rest =>
    rw [stopsAt_cons] at hatom ⊢
    have hword : isWordChar c = false := by
      simp only [isAtomChar, Bool.or_eq_false_iff] at hatom
      exact hatom.1
    have hpoint : c ≠ '.' := by
      rintro rfl
      exact absurd h (by simp [levelAfter])
    simp [isDottedChar, hword, hpoint]

theorem head?_ne_paren {r : List Char} (h : levelAfter r < 16) : r.head? ≠ some '(' := by
  cases r with
  | nil => simp
  | cons c rest =>
    simp only [List.head?_cons, ne_eq, Option.some.injEq]
    rintro rfl
    exact absurd h (by simp [levelAfter])

/-- What follows an operand binds less tightly than the operand's position allows. -/
theorem Linked.levelAfter_lt {p level reach : Nat} {suffixes : List Suffix} {r : List Char}
    (hlinked : Linked p level suffixes) (hr : levelAfter r < p) (hle : level ≤ reach)
    (hnext : ∀ s : Suffix, s.demand ≤ level → s.level < reach) :
    levelAfter (suffixes.flatMap Suffix.chars ++ r) < reach := by
  cases suffixes with
  | nil => exact Nat.lt_of_lt_of_le hr (Nat.le_trans hlinked hle)
  | cons s rest =>
    rw [List.flatMap_cons, List.append_assoc, s.levelAfter_chars_append]
    exact hnext s hlinked.1

theorem Head.level_lt (h : Head) (s : Suffix) (hs : s.demand ≤ h.level) : s.level < h.level := by
  have hlevel : h.level = 16 ∨ h.level = 13 := by
    cases h <;> simp [level]
  cases s with
  | op o _ =>
    cases o <;> rcases hlevel with hl | hl <;>
      simp [Suffix.level, Suffix.demand, BinaryOp.precedence, hl] at hs ⊢
  | _ => rcases hlevel with hl | hl <;> simp [Suffix.level, Suffix.demand, hl] at hs ⊢

theorem Suffix.level_le_reach (s : Suffix) : s.level ≤ s.reach := by
  cases s <;> simp [level, reach]

theorem Suffix.level_lt_reach (s s' : Suffix) (h : s'.demand ≤ s.level) : s'.level < s.reach := by
  have hle := Nat.le_trans s'.level_le_demand h
  cases s with
  | choose yes no | set value =>
    cases s' with
    | op o _ => cases o <;> simp [level, demand, BinaryOp.precedence] at h
    | _ => simp [level, demand, reach] at h ⊢
  | _ => exact Nat.lt_succ_of_le hle

/-! ## Names, literals and classes -/

theorem isAtomChar_of_isWordChar {c : Char} (h : isWordChar c = true) : isAtomChar c = true := by
  simp [isAtomChar, h]

namespace IsName

variable {name : String}

theorem isAtomChar (h : IsName name) : ∀ c ∈ name.toList, isAtomChar c = true :=
  fun c hc => isAtomChar_of_isWordChar (h.1.2.1 c hc)

/-- A name does not start like a number. -/
theorem exists_cons (h : IsName name) :
    ∃ c cs, name.toList = c :: cs ∧ isWordChar c = true ∧ c.isDigit = false := h.1.exists_cons

end IsName

namespace Literal

/-- A character of a written integer. -/
def isNumberChar (c : Char) : Bool := c.isDigit || c == '-'

theorem toList_toString (i : Int) :
    (toString i).toList = (if i < 0 then ['-'] else []) ++ Nat.toDigits 10 i.natAbs := by
  cases i with
  | ofNat n => simp [toString, Int.repr]
  | negSucc n => simp [toString, Int.repr, Int.negSucc_lt_zero]

theorem toString_ne_nil (i : Int) : (toString i).toList ≠ [] := by
  rw [toList_toString]
  simp [Nat.toDigits_ne_nil]

theorem isNumberChar_toString (i : Int) : ∀ c ∈ (toString i).toList, isNumberChar c = true := by
  intro c hc
  rw [toList_toString] at hc
  rcases List.mem_append.mp hc with hsign | hdigit
  · split at hsign
    · rw [List.mem_singleton.mp hsign]
      decide
    · contradiction
  · have hc := Nat.isDigit_of_mem_toDigits (by decide) (by decide) hdigit
    simp [isNumberChar, hc]

theorem toString_inj {i j : Int} (h : (toString i).toList = (toString j).toList) : i = j := by
  have hsign : ∀ k : Int, ∀ c ∈ (if k < 0 then ['-'] else []), (c == '-') = true := by
    intro k c hc
    split at hc
    · simpa using hc
    · contradiction
  have hdigits : ∀ k : Int, StopsAt (· == '-') (Nat.toDigits 10 k.natAbs) := by
    intro k c hc
    have hdigit := Nat.isDigit_of_mem_toDigits (by decide) (by decide) (List.mem_of_mem_head? hc)
    by_contra hne
    rw [Bool.not_eq_false, beq_iff_eq] at hne
    rw [hne] at hdigit
    contradiction
  rw [toList_toString, toList_toString] at h
  obtain ⟨hsame, hdigits⟩ := run_append_inj (hsign i) (hsign j) (hdigits i) (hdigits j) h
  have habs := toDigits_inj hdigits
  split at hsame <;> split at hsame <;> first | omega | contradiction

theorem isAtomChar_of_isNumberChar {c : Char} (h : isNumberChar c = true) :
    isAtomChar c = true := by
  rcases (Bool.or_eq_true _ _).mp h with hdigit | hsign
  · exact isAtomChar_of_isWordChar (isWordChar_of_isDigit hdigit)
  · simp [isAtomChar, hsign]

/-- The value and the ending of an integer literal. -/
def number? : Literal → Option (Int × List Char)
  | .int i => some (i, [])
  | .long i => some (i, ['L'])
  | _ => none

theorem toList_text_of_number? {l : Literal} {i : Int} {ending : List Char}
    (h : l.number? = some (i, ending)) : l.text.toList = (toString i).toList ++ ending := by
  cases l with
  | int j | long j =>
    cases h
    simp [text]
  | _ => cases h

/-- The literals that are keywords. -/
def keywords : List Literal := [.null, .bool true, .bool false]

/-- A plain literal is a number or a keyword. -/
theorem IsPlain.cases {l : Literal} (h : l.IsPlain) :
    l.number?.isSome = true ∨ l ∈ keywords := by
  cases l with
  | bool b => cases b <;> exact .inr (by decide)
  | null => exact .inr (by decide)
  | int _ | long _ => exact .inl rfl
  | _ => exact h.elim

theorem exists_cons_of_number? {l : Literal} (h : l.number?.isSome = true) :
    ∃ c cs, l.text.toList = c :: cs ∧ isNumberChar c = true := by
  obtain ⟨⟨i, ending⟩, hi⟩ := Option.isSome_iff_exists.mp h
  rw [toList_text_of_number? hi]
  cases hs : (toString i).toList with
  | nil => exact absurd hs (toString_ne_nil i)
  | cons c cs =>
    exact ⟨c, cs ++ ending, rfl, isNumberChar_toString i c (hs ▸ List.mem_cons_self)⟩

theorem IsPlain.isAtomChar {l : Literal} (h : l.IsPlain) :
    ∀ c ∈ l.text.toList, isAtomChar c = true := by
  rcases h.cases with hnumber | hword
  · obtain ⟨⟨i, ending⟩, hi⟩ := Option.isSome_iff_exists.mp hnumber
    rw [toList_text_of_number? hi]
    intro c hc
    rcases List.mem_append.mp hc with hdigit | hend
    · exact isAtomChar_of_isNumberChar (isNumberChar_toString i c hdigit)
    · cases l <;> cases hi
      · contradiction
      · rw [List.mem_singleton.mp hend]
        decide
  · have hall : ∀ k ∈ keywords, k.text.toList.all Target.isAtomChar = true := by
      decide
    exact List.all_eq_true.mp (hall l hword)

theorem number?_inj {l l' : Literal} {x : Int × List Char} (h : l.number? = some x)
    (h' : l'.number? = some x) : l = l' := by
  cases l <;> cases h <;> cases l' <;> cases h' <;> rfl

theorem stopsAt_ending {l : Literal} {i : Int} {ending : List Char}
    (h : l.number? = some (i, ending)) : StopsAt isNumberChar ending := by
  cases l <;> cases h <;> decide

/-- No number is written like a keyword. -/
theorem text_ne_of_number? {l l' : Literal} (hl : l.number?.isSome = true) (hl' : l' ∈ keywords) :
    l.text ≠ l'.text := by
  intro h
  obtain ⟨c, cs, hcons, hnum⟩ := exists_cons_of_number? hl
  have hall : ∀ k ∈ keywords, StopsAt isNumberChar k.text.toList := by
    decide
  have hstops := hall l' hl'
  rw [← h, hcons, stopsAt_cons, hnum] at hstops
  cases hstops

theorem IsPlain.text_inj {l l' : Literal} (hl : l.IsPlain) (hl' : l'.IsPlain)
    (h : l.text = l'.text) : l = l' := by
  rcases hl.cases with hnumber | hword <;> rcases hl'.cases with hnumber' | hword'
  · obtain ⟨⟨i, ending⟩, hi⟩ := Option.isSome_iff_exists.mp hnumber
    obtain ⟨⟨j, ending'⟩, hj⟩ := Option.isSome_iff_exists.mp hnumber'
    have htext := congrArg String.toList h
    rw [toList_text_of_number? hi, toList_text_of_number? hj] at htext
    obtain ⟨hdigits, rfl⟩ := run_append_inj (isNumberChar_toString i) (isNumberChar_toString j)
      (stopsAt_ending hi) (stopsAt_ending hj) htext
    obtain rfl := toString_inj hdigits
    exact number?_inj hi hj
  · exact absurd h (text_ne_of_number? hnumber hword')
  · exact absurd h.symm (text_ne_of_number? hnumber' hword)
  · have hall : ∀ k ∈ keywords, ∀ k' ∈ keywords, k.text = k'.text → k = k' := by decide
    exact hall l hword l' hword' h

/-- A name is no literal. -/
theorem IsPlain.text_ne_name {l : Literal} (hl : l.IsPlain) {name : String} (hname : IsName name) :
    name ≠ l.text := by
  rintro rfl
  rcases hl.cases with hnumber | hword
  · obtain ⟨c, cs, hcons, hc, hdigit⟩ := hname.exists_cons
    obtain ⟨c', cs', hcons', hnum⟩ := exists_cons_of_number? hnumber
    obtain ⟨rfl, -⟩ := List.cons.inj (hcons.symm.trans hcons')
    rcases (Bool.or_eq_true _ _).mp hnum with hd | hsign
    · exact absurd hd (by simp [hdigit])
    · rw [beq_iff_eq.mp hsign] at hc
      exact absurd hc (by decide)
  · have hall : ∀ k ∈ keywords, k.text ∈ ["null", "true", "false"] := by decide
    exact hname.2 (hall l hword)

end Literal

/-! ## Classes by their names -/

/-- The characters of further parts of a name, each with the point before it. -/
def dottedRest (parts : List String) : List Char := parts.flatMap fun part => '.' :: part.toList

theorem toList_dotted (first : String) (rest : List String) :
    (".".intercalate (first :: rest)).toList = first.toList ++ dottedRest rest := by
  rw [String.toList_intercalate]
  induction rest generalizing first with
  | nil => simp [dottedRest]
  | cons second rest ih =>
    have htail := ih second
    simp only [List.map_cons, List.intercalate_cons_cons] at htail ⊢
    rw [htail]
    simp [dottedRest]

namespace Ty.IsDotted

variable {ty ty' : Ty}

theorem isDottedChar (h : ty.IsDotted) : ∀ c ∈ ty.chars, isDottedChar c = true := by
  obtain ⟨first, rest, hparts, rfl⟩ := h
  have hpart : ∀ part ∈ first :: rest, ∀ c ∈ part.toList, Text.isDottedChar c = true := by
    intro part hpart c hc
    simp [Text.isDottedChar, (hparts part hpart).1.2.1 c hc]
  intro c hc
  rw [chars, text, toList_dotted] at hc
  rcases List.mem_append.mp hc with hfirst | hrest
  · exact hpart first List.mem_cons_self c hfirst
  · obtain ⟨part, hmem, hin⟩ := List.mem_flatMap.mp hrest
    rcases List.mem_cons.mp hin with rfl | hin
    · decide
    · exact hpart part (List.mem_cons_of_mem _ hmem) c hin

theorem exists_cons (h : ty.IsDotted) : ∃ c cs, ty.chars = c :: cs ∧ isWordChar c = true := by
  obtain ⟨first, rest, hparts, rfl⟩ := h
  obtain ⟨c, cs, hfirst, hc, -⟩ := (hparts first List.mem_cons_self).exists_cons
  exact ⟨c, cs ++ dottedRest rest, by rw [chars, text, toList_dotted, hfirst]; rfl, hc⟩

theorem chars_inj (h : ty.IsDotted) (h' : ty'.IsDotted) (heq : ty.chars = ty'.chars) :
    ty = ty' := by
  obtain ⟨first, rest, -, rfl⟩ := h
  obtain ⟨first', rest', -, rfl⟩ := h'
  exact congrArg Ty.cls (String.toList_inj.mp heq)

/-- A class name and what follows it are determined. -/
theorem append_inj (h : ty.IsDotted) (h' : ty'.IsDotted) {r r' : List Char}
    (hr : StopsAt Text.isDottedChar r) (hr' : StopsAt Text.isDottedChar r')
    (heq : ty.chars ++ r = ty'.chars ++ r') : ty = ty' ∧ r = r' := by
  obtain ⟨hchars, rfl⟩ := run_append_inj h.isDottedChar h'.isDottedChar hr hr' heq
  exact ⟨h.chars_inj h' hchars, rfl⟩

/-- A class name is written like a member of a name. -/
theorem exists_member (h : ty.IsDotted) :
    ∃ e : Expr, e.Operational ∧ 15 ≤ e.precedence ∧ e.chars = ty.chars := by
  obtain ⟨first, rest, hparts, rfl⟩ := h
  have hmember : ∀ (parts : List String) (e : Expr), (∀ part ∈ parts, IsName part) →
      e.Operational → 15 ≤ e.precedence → ∃ e' : Expr, e'.Operational ∧ 15 ≤ e'.precedence ∧
        e'.chars = e.chars ++ dottedRest parts := by
    intro parts
    induction parts with
    | nil => exact fun e _ he hprec => ⟨e, he, hprec, by simp [dottedRest]⟩
    | cons part parts ih =>
      intro e hparts he hprec
      obtain ⟨e', he', hprec', hchars⟩ := ih (.select e part)
        (fun x hx => hparts x (List.mem_cons_of_mem _ hx))
        (.select he (hparts part List.mem_cons_self)) (Nat.le_refl _)
      refine ⟨e', he', hprec', hchars.trans ?_⟩
      simp [Expr.chars_select, Expr.charsAt_of_le hprec, dottedRest]
  obtain ⟨e, he, hprec, hchars⟩ := hmember rest (.ident first)
    (fun part hpart => hparts part (List.mem_cons_of_mem _ hpart))
    (.ident (hparts first List.mem_cons_self)) (Nat.le_succ 15)
  refine ⟨e, he, hprec, hchars.trans ?_⟩
  rw [Expr.chars_ident, chars, text, toList_dotted]

end Ty.IsDotted

/-! ## Reading -/

/-- An operand that is written with fewer than the given number of characters, all that
follows included, is determined, and so is what follows it, provided that this binds less
tightly than the operand's position demands. -/
def UniqueBelow (n : Nat) : Prop :=
  ∀ ⦃p : Nat⦄ ⦃e e' : Expr⦄ ⦃r r' : List Char⦄, e.Operational → e'.Operational → p ≤ 15 →
    (e.charsAt p ++ r).length < n → levelAfter r < p → levelAfter r' < p →
      e.charsAt p ++ r = e'.charsAt p ++ r' → e = e' ∧ r = r'

variable {n : Nat} {r r' : List Char}

/-- An expression in brackets, or before a comma, is determined. -/
theorem UniqueBelow.chars_append_inj (hu : UniqueBelow n) {e e' : Expr} (he : e.Operational)
    (he' : e'.Operational) (hlen : (e.chars ++ r).length < n) (hr : levelAfter r = 0)
    (hr' : levelAfter r' = 0) (h : e.chars ++ r = e'.chars ++ r') : e = e' ∧ r = r' := by
  rw [← Expr.charsAt_one] at hlen
  rw [← Expr.charsAt_one, ← Expr.charsAt_one] at h
  exact hu he he' (by decide) hlen (by omega) (by omega) h

/-! ### Calls -/

theorem readsMembers_types (n : Nat) :
    ReadsMembers Ty.chars id Ty.IsDotted (EndsMember '>') n := by
  have hstops : ∀ {r : List Char}, EndsMember '>' r → StopsAt isDottedChar r := by
    rintro r (h | h) c hc <;> rw [h] at hc <;> cases hc <;> decide
  intro ty ty' r r' hty hty' _ hr hr' h
  exact hty.append_inj hty' (hstops hr) (hstops hr') h

theorem UniqueBelow.readsMembers (hu : UniqueBelow n) :
    ReadsMembers Expr.chars id Expr.Operational (EndsMember ')') n := by
  have hlevel : ∀ {r : List Char}, EndsMember ')' r → levelAfter r = 0 := by
    intro r hr
    cases r with
    | nil => rfl
    | cons c rest =>
      simp only [EndsMember, List.head?_cons, Option.some.injEq] at hr
      rcases hr with rfl | rfl <;> rfl
  intro e e' r r' he he' hlen hr hr' h
  exact hu.chars_append_inj he he' hlen (hlevel hr) (hlevel hr') h

theorem textAll_eq (tys : List Ty) : Ty.textAll tys = tys.map Ty.text := by
  induction tys with
  | nil => simp [Ty.textAll]
  | cons ty tys ih => simp [Ty.textAll, ih]

theorem callChars_nil (method : String) (args : List Expr) :
    callChars [] method args ++ r =
      method.toList ++ '(' :: (commaList (args.map Expr.chars) ++ ')' :: r) := by
  simp [callChars, typeArgsText]

theorem callChars_cons (ty : Ty) (typeArgs : List Ty) (method : String) (args : List Expr) :
    callChars (ty :: typeArgs) method args ++ r =
      '<' :: (commaList ((ty :: typeArgs).map Ty.chars) ++
        '>' :: (callChars [] method args ++ r)) := by
  have htypes : (", ".intercalate (Ty.textAll (ty :: typeArgs))).toList =
      commaList ((ty :: typeArgs).map Ty.chars) := by
    rw [textAll_eq, String.toList_intercalate, List.map_map]
    rfl
  rw [callChars_nil, ← htypes]
  simp [callChars, typeArgsText]

/-- A phrase starts like a name, or with type arguments. -/
theorem Phrase.Operational.exists_cons {q : Phrase} (hq : q.Operational) :
    ∃ c cs, q.chars = c :: cs ∧ (isAtomChar c = true ∨ c = '<') := by
  cases q with
  | name name =>
    obtain ⟨c, cs, hcons, hc, -⟩ := IsName.exists_cons hq
    exact ⟨c, cs, hcons, .inl (isAtomChar_of_isWordChar hc)⟩
  | call typeArgs method args =>
    have hchars := List.append_nil (callChars typeArgs method args)
    cases typeArgs with
    | nil =>
      obtain ⟨c, cs, hcons, hc, -⟩ := hq.2.1.exists_cons
      rw [callChars_nil, hcons] at hchars
      exact ⟨c, _, hchars.symm, .inl (isAtomChar_of_isWordChar hc)⟩
    | cons ty typeArgs =>
      rw [callChars_cons] at hchars
      exact ⟨'<', _, hchars.symm, .inr rfl⟩

theorem Literal.IsPlain.toList_ne_nil {l : Literal} (hl : l.IsPlain) : l.text.toList ≠ [] := by
  rcases hl.cases with hnumber | hword
  · obtain ⟨c, cs, hcons, -⟩ := exists_cons_of_number? hnumber
    simp [hcons]
  · have hall : ∀ k ∈ keywords, k.text.toList ≠ [] := by decide
    exact hall l hword

theorem Literal.IsPlain.exists_cons {l : Literal} (hl : l.IsPlain) :
    ∃ c cs, l.text.toList = c :: cs ∧ Target.isAtomChar c = true := by
  cases hcons : l.text.toList with
  | nil => exact absurd hcons hl.toList_ne_nil
  | cons c cs => exact ⟨c, cs, rfl, hl.isAtomChar c (hcons ▸ List.mem_cons_self)⟩

/-- What an expression starts with. -/
theorem Head.Operational.exists_cons {h : Head} (hh : h.Operational) :
    ∃ c cs, h.chars = c :: cs ∧ (isAtomChar c = true ∨ c ∈ ['<', '(', '!']) := by
  cases h with
  | phrase q =>
    obtain ⟨c, cs, hcons, hc⟩ := Phrase.Operational.exists_cons hh
    exact ⟨c, cs, hcons, hc.imp_right (by rintro rfl; decide)⟩
  | lit l =>
    obtain ⟨c, cs, hcons, hc⟩ := Literal.IsPlain.exists_cons hh
    exact ⟨c, cs, hcons, .inl hc⟩
  | group e => exact ⟨'(', _, rfl, .inr (by decide)⟩
  | cast ty value => exact ⟨'(', _, rfl, .inr (by decide)⟩
  | not e => exact ⟨'!', _, rfl, .inr (by decide)⟩

/-- No expression starts with a closing parenthesis. -/
theorem Expr.Operational.head?_ne {e : Expr} (he : e.Operational) (r : List Char) :
    (e.chars ++ r).head? ≠ some ')' := by
  obtain ⟨x, hvalid, -, hchars⟩ := he.exists_spine (p := 1) (by decide)
  obtain ⟨c, cs, hcons, hc⟩ := hvalid.head.exists_cons
  rw [charsAt_one] at hchars
  rw [← hchars, Spine.chars, hcons]
  rintro hparen
  rw [Option.some.inj hparen] at hc
  revert hc
  decide

theorem callChars_nil_append_inj (hu : UniqueBelow n) {method method' : String}
    {args args' : List Expr} (hq : (Phrase.call [] method args).Operational)
    (hq' : (Phrase.call [] method' args').Operational)
    (hlen : (callChars [] method args ++ r).length < n + 1)
    (h : callChars [] method args ++ r = callChars [] method' args' ++ r') :
    method = method' ∧ args = args' ∧ r = r' := by
  obtain ⟨-, hmethod, hargs⟩ := hq
  obtain ⟨-, hmethod', hargs'⟩ := hq'
  rw [callChars_nil, callChars_nil] at h
  obtain ⟨hname, hlist⟩ := run_append_inj hmethod.1.2.1 hmethod'.1.2.1
    (stopsAt_cons.mpr (by decide)) (stopsAt_cons.mpr (by decide)) h
  have hshort : (commaList (args.map Expr.chars) ++ ')' :: r).length < n := by
    rw [callChars_nil, List.length_append, List.length_cons] at hlen
    omega
  obtain ⟨rfl, rfl⟩ := commaList_append_inj hu.readsMembers (by decide)
    (fun _ he => he.head?_ne) hargs hargs' hshort (List.cons.inj hlist).2
  exact ⟨String.toList_inj.mp hname, rfl, rfl⟩

/-- No name or literal is read as type arguments. -/
theorem atom_append_ne_typeArgs {w s s' : List Char} {ty : Ty} {tys : List Ty} {m : String}
    {es : List Expr} (hw : ∀ c ∈ w, isAtomChar c = true) (hne : w ≠ []) :
    w ++ s ≠ callChars (ty :: tys) m es ++ s' := by
  obtain ⟨c, cs, rfl⟩ := List.exists_cons_of_ne_nil hne
  intro h
  have hc := hw c List.mem_cons_self
  rw [callChars_cons] at h
  rw [(List.cons.inj h).1] at hc
  exact absurd hc (by decide)

/-- No name or literal is read as a call. -/
theorem atom_append_ne_call {w s s' : List Char} {tys : List Ty} {m : String} {es : List Expr}
    (hw : ∀ c ∈ w, isAtomChar c = true) (hne : w ≠ []) (hm : IsName m) (hs : levelAfter s < 16) :
    w ++ s ≠ callChars tys m es ++ s' := by
  cases tys with
  | nil =>
    intro h
    rw [callChars_nil] at h
    obtain ⟨-, hparen⟩ := run_append_inj hw hm.isAtomChar (stopsAt_isAtomChar hs)
      (stopsAt_cons.mpr (by decide)) h
    exact head?_ne_paren hs (by rw [hparen]; rfl)
  | cons ty tys => exact atom_append_ne_typeArgs hw hne

theorem callChars_append_inj (hu : UniqueBelow n) {typeArgs typeArgs' : List Ty}
    {method method' : String} {args args' : List Expr}
    (hq : (Phrase.call typeArgs method args).Operational)
    (hq' : (Phrase.call typeArgs' method' args').Operational)
    (hlen : (callChars typeArgs method args ++ r).length < n + 1)
    (h : callChars typeArgs method args ++ r = callChars typeArgs' method' args' ++ r') :
    typeArgs = typeArgs' ∧ method = method' ∧ args = args' ∧ r = r' := by
  have hstart : ∀ {ty : Ty} {tys : List Ty} {m m' : String} {es es' : List Expr}
      {s s' : List Char}, IsName m →
        callChars [] m es ++ s ≠ callChars (ty :: tys) m' es' ++ s' := by
    intro ty tys m m' es es' s s' hm
    rw [callChars_nil]
    exact atom_append_ne_typeArgs hm.isAtomChar hm.1.1
  cases typeArgs with
  | nil =>
    cases typeArgs' with
    | nil => exact ⟨rfl, callChars_nil_append_inj hu hq hq' hlen h⟩
    | cons ty' typeArgs' => exact absurd h (hstart hq.2.1)
  | cons ty typeArgs =>
    cases typeArgs' with
    | nil => exact absurd h.symm (hstart hq'.2.1)
    | cons ty' typeArgs' =>
      rw [callChars_cons, callChars_cons] at h
      rw [callChars_cons, List.length_cons, List.length_append, List.length_cons] at hlen
      obtain ⟨htypes, hcall⟩ := commaList_append_inj (readsMembers_types _) (by decide)
        (fun ty hty r => by
          obtain ⟨c, cs, hcons, hc⟩ := hty.exists_cons
          rw [hcons]
          rintro hbracket
          rw [Option.some.inj hbracket] at hc
          exact absurd hc (by decide))
        hq.1 hq'.1 (Nat.lt_succ_self _) (List.cons.inj h).2
      have hnone : ∀ ty ∈ ([] : List Ty), ty.IsDotted := fun _ hty => absurd hty List.not_mem_nil
      obtain ⟨rfl, rfl, rfl⟩ := callChars_nil_append_inj hu ⟨hnone, hq.2⟩ ⟨hnone, hq'.2⟩
        (by omega) hcall
      exact ⟨htypes, rfl, rfl, rfl⟩

/-- A phrase and what follows it are determined. -/
theorem Phrase.append_inj (hu : UniqueBelow n) {q q' : Phrase} (hq : q.Operational)
    (hq' : q'.Operational) (hlen : (q.chars ++ r).length < n + 1) (hr : levelAfter r < 16)
    (hr' : levelAfter r' < 16) (h : q.chars ++ r = q'.chars ++ r') : q = q' ∧ r = r' := by
  cases q with
  | name name =>
    cases q' with
    | name name' =>
      obtain ⟨hname, rfl⟩ := run_append_inj (IsName.isAtomChar hq) (IsName.isAtomChar hq')
        (stopsAt_isAtomChar hr) (stopsAt_isAtomChar hr') h
      exact ⟨congrArg Phrase.name (String.toList_inj.mp hname), rfl⟩
    | call typeArgs method args =>
      exact absurd h (atom_append_ne_call (IsName.isAtomChar hq) hq.1.1 hq'.2.1 hr)
  | call typeArgs method args =>
    cases q' with
    | name name =>
      exact absurd h.symm (atom_append_ne_call (IsName.isAtomChar hq') hq'.1.1 hq.2.1 hr')
    | call typeArgs' method' args' =>
      obtain ⟨rfl, rfl, rfl, rfl⟩ := callChars_append_inj hu hq hq' hlen h
      exact ⟨rfl, rfl⟩

/-! ### Heads -/

/-- A literal and what follows it are determined. -/
theorem Literal.IsPlain.append_inj {l l' : Literal} (hl : l.IsPlain) (hl' : l'.IsPlain)
    (hr : levelAfter r < 16) (hr' : levelAfter r' < 16)
    (h : l.text.toList ++ r = l'.text.toList ++ r') : l = l' ∧ r = r' := by
  obtain ⟨htext, rfl⟩ := run_append_inj hl.isAtomChar hl'.isAtomChar (stopsAt_isAtomChar hr)
    (stopsAt_isAtomChar hr') h
  exact ⟨hl.text_inj hl' (String.toList_inj.mp htext), rfl⟩

/-- A phrase is not read as a literal. -/
theorem Phrase.append_ne_literal {q : Phrase} {l : Literal} (hq : q.Operational) (hl : l.IsPlain)
    (hr : levelAfter r < 16) (hr' : levelAfter r' < 16) : q.chars ++ r ≠ l.text.toList ++ r' := by
  intro h
  cases q with
  | name name =>
    obtain ⟨htext, -⟩ := run_append_inj (IsName.isAtomChar hq) hl.isAtomChar
      (stopsAt_isAtomChar hr) (stopsAt_isAtomChar hr') h
    exact hl.text_ne_name hq (String.toList_inj.mp htext)
  | call typeArgs method args =>
    exact atom_append_ne_call hl.isAtomChar hl.toList_ne_nil hq.2.1 hr' h.symm

/-- What stands in parentheses is not read as the class of a cast. -/
theorem UniqueBelow.group_ne_cast (hu : UniqueBelow n) {e : Expr} {ty : Ty} {s s' : List Char}
    (he : e.Operational) (hprec : e.precedence < 15) (hty : ty.IsDotted)
    (hlen : (e.chars ++ ')' :: s).length < n) : e.chars ++ ')' :: s ≠ ty.chars ++ ')' :: s' := by
  intro h
  obtain ⟨member, hmember, hbinds, hchars⟩ := hty.exists_member
  rw [← hchars] at h
  obtain ⟨rfl, -⟩ := hu.chars_append_inj he hmember hlen rfl rfl h
  omega

namespace Head

theorem chars_group (e : Expr) : (group e).chars ++ r = '(' :: (e.chars ++ ')' :: r) := by
  simp [chars]

theorem chars_not (e : Expr) : (Head.not e).chars ++ r = '!' :: (e.charsAt 13 ++ r) := rfl

theorem chars_cast (ty : Ty) (value : Expr) :
    (cast ty value).chars ++ r = '(' :: (ty.chars ++ ')' :: ' ' :: (value.charsAt 13 ++ r)) := by
  simp [chars]

/-- The head is a phrase or a literal. -/
def isAtom : Head → Bool
  | phrase _ | lit _ => true
  | group _ | not _ | cast _ _ => false

theorem atom_append_ne {x x' : Head} (hx : x.Operational) (hatom : x.isAtom = true)
    (hatom' : x'.isAtom = false) : x.chars ++ r ≠ x'.chars ++ r' := by
  have hstart : ∃ c cs, x.chars = c :: cs ∧ (isAtomChar c = true ∨ c = '<') := by
    cases x with
    | phrase q => exact Phrase.Operational.exists_cons hx
    | lit l =>
      obtain ⟨c, cs, hcons, hc⟩ := Literal.IsPlain.exists_cons hx
      exact ⟨c, cs, hcons, .inl hc⟩
    | group _ | not _ | cast _ _ => contradiction
  obtain ⟨c, cs, hcons, hc⟩ := hstart
  rw [hcons]
  intro h
  cases x' with
  | phrase _ | lit _ => contradiction
  | group _ | not _ | cast _ _ =>
    rw [(List.cons.inj h).1] at hc
    revert hc
    decide

/-- The head of an expression and what follows it are determined. -/
theorem append_inj (hu : UniqueBelow n) {x x' : Head} (hx : x.Operational)
    (hx' : x'.Operational) (hlen : (x.chars ++ r).length < n + 1) (hr : levelAfter r < x.level)
    (hr' : levelAfter r' < x'.level) (h : x.chars ++ r = x'.chars ++ r') : x = x' ∧ r = r' := by
  cases x with
  | phrase q =>
    cases x' with
    | phrase q' =>
      obtain ⟨rfl, rfl⟩ := Phrase.append_inj hu hx hx' hlen hr hr' h
      exact ⟨rfl, rfl⟩
    | lit l' => exact absurd h (Phrase.append_ne_literal hx hx' hr hr')
    | group _ | not _ | cast _ _ => exact absurd h (atom_append_ne hx rfl rfl)
  | lit l =>
    cases x' with
    | phrase q' => exact absurd h.symm (Phrase.append_ne_literal hx' hx hr' hr)
    | lit l' =>
      obtain ⟨rfl, rfl⟩ := Literal.IsPlain.append_inj hx hx' hr hr' h
      exact ⟨rfl, rfl⟩
    | group _ | not _ | cast _ _ => exact absurd h (atom_append_ne hx rfl rfl)
  | group e =>
    cases x' with
    | phrase _ | lit _ => exact absurd h.symm (atom_append_ne hx' rfl rfl)
    | group e' =>
      rw [chars_group, List.length_cons, Nat.add_lt_add_iff_right] at hlen
      rw [chars_group, chars_group] at h
      obtain ⟨rfl, htail⟩ := hu.chars_append_inj hx.1 hx'.1 hlen rfl rfl (List.cons.inj h).2
      exact ⟨rfl, (List.cons.inj htail).2⟩
    | not e' => exact absurd (List.cons.inj h).1 (by decide)
    | cast ty value =>
      rw [chars_group, List.length_cons, Nat.add_lt_add_iff_right] at hlen
      rw [chars_group, chars_cast] at h
      exact absurd (List.cons.inj h).2 (hu.group_ne_cast hx.1 hx.2 hx'.1 hlen)
  | not e =>
    cases x' with
    | phrase _ | lit _ => exact absurd h.symm (atom_append_ne hx' rfl rfl)
    | group e' | cast ty value => exact absurd (List.cons.inj h).1 (by decide)
    | not e' =>
      rw [chars_not, List.length_cons, Nat.add_lt_add_iff_right] at hlen
      rw [chars_not, chars_not] at h
      obtain ⟨rfl, rfl⟩ := hu (p := 13) hx hx' (by decide) hlen hr hr' (List.cons.inj h).2
      exact ⟨rfl, rfl⟩
  | cast ty value =>
    cases x' with
    | phrase _ | lit _ => exact absurd h.symm (atom_append_ne hx' rfl rfl)
    | group e' =>
      rw [h, chars_group, List.length_cons, Nat.add_lt_add_iff_right] at hlen
      rw [chars_group, chars_cast] at h
      exact absurd (List.cons.inj h).2.symm (hu.group_ne_cast hx'.1 hx'.2 hx.1 hlen)
    | not e' => exact absurd (List.cons.inj h).1 (by decide)
    | cast ty' value' =>
      rw [chars_cast, List.length_cons, List.length_append, List.length_cons,
        List.length_cons] at hlen
      rw [chars_cast, chars_cast] at h
      obtain ⟨rfl, htail⟩ := hx.1.append_inj hx'.1 (stopsAt_cons.mpr (by decide))
        (stopsAt_cons.mpr (by decide)) (List.cons.inj h).2
      have hvalue := (List.cons.inj (List.cons.inj htail).2).2
      obtain ⟨rfl, rfl⟩ := hu (p := 13) hx.2 hx'.2 (by decide) (by omega) hr hr' hvalue
      exact ⟨rfl, rfl⟩

end Head

/-! ### Suffixes -/

/-- A sign that is written between spaces. -/
inductive Sign where
  | op (op : BinaryOp)
  | isA
  | choose
  | set

namespace Sign

def chars : Sign → List Char
  | op o => o.chars
  | isA => "instanceof".toList
  | choose => ['?']
  | set => ['=']

theorem no_space (sign : Sign) : ∀ c ∈ sign.chars, (c != ' ') = true := by
  refine List.all_eq_true.mp ?_
  cases sign with
  | op o => cases o <;> decide
  | _ => decide

theorem chars_inj {sign sign' : Sign} (h : sign.chars = sign'.chars) : sign = sign' := by
  cases sign with
  | op o =>
    cases sign' with
    | op o' => cases o <;> cases o' <;> first | rfl | exact absurd h (by decide)
    | _ => cases o <;> exact absurd h (by decide)
  | _ =>
    cases sign' with
    | op o' => cases o' <;> exact absurd h (by decide)
    | _ => first | rfl | exact absurd h (by decide)

/-- A sign with the spaces around it, and what follows them, are determined. -/
theorem append_inj {sign sign' : Sign}
    (h : ' ' :: (sign.chars ++ ' ' :: r) = ' ' :: (sign'.chars ++ ' ' :: r')) :
    sign = sign' ∧ r = r' := by
  obtain ⟨hsign, htail⟩ := run_append_inj sign.no_space sign'.no_space
    (stopsAt_cons.mpr (by decide)) (stopsAt_cons.mpr (by decide)) (List.cons.inj h).2
  exact ⟨chars_inj hsign, (List.cons.inj htail).2⟩

end Sign

namespace Suffix

/-- The sign of a suffix that has one, and what stands after it. -/
def signed? : Suffix → Option (Sign × List Char)
  | op o rhs => some (.op o, rhs.charsAt (o.precedence + 1))
  | isA ty => some (.isA, ty.chars)
  | choose yes no => some (.choose, yes.charsAt 3 ++ ' ' :: ':' :: ' ' :: no.charsAt 2)
  | set value => some (.set, value.charsAt 1)
  | dot _ | item _ => none

theorem chars_of_signed {s : Suffix} {sign : Sign} {body : List Char}
    (hs : s.signed? = some (sign, body)) (r : List Char) :
    s.chars ++ r = ' ' :: (sign.chars ++ ' ' :: (body ++ r)) := by
  have hspaced : ∀ a b : List Char,
      (' ' :: (a ++ ' ' :: b)) ++ r = ' ' :: (a ++ ' ' :: (b ++ r)) := by simp
  cases s with
  | dot _ | item _ => contradiction
  | _ =>
    cases hs
    exact hspaced _ _

/-- Of two suffixes that are read alike both have the same sign. -/
theorem signed?_of_append_eq {s s' : Suffix} {sign : Sign} {body : List Char}
    (h : s.chars ++ r = s'.chars ++ r') (hs : s.signed? = some (sign, body)) :
    ∃ body', s'.signed? = some (sign, body') ∧ body ++ r = body' ++ r' := by
  cases hs' : s'.signed? with
  | none =>
    rw [chars_of_signed hs] at h
    cases s' with
    | dot _ | item _ => exact absurd (List.cons.inj h).1 (by decide)
    | _ => contradiction
  | some found =>
    obtain ⟨sign', body'⟩ := found
    rw [chars_of_signed hs, chars_of_signed hs'] at h
    obtain ⟨rfl, hbody⟩ := Sign.append_inj h
    exact ⟨body', rfl, hbody⟩

/-- The two branches of a choice, with the colon between them, are determined. -/
theorem choose_append_inj (hu : UniqueBelow n) {yes yes' no no' : Expr}
    (hs : (choose yes no).Operational) (hs' : (choose yes' no').Operational)
    (hlen : ((yes.charsAt 3 ++ ' ' :: ':' :: ' ' :: no.charsAt 2) ++ r).length < n)
    (hr : levelAfter r < 2) (hr' : levelAfter r' < 2)
    (h : (yes.charsAt 3 ++ ' ' :: ':' :: ' ' :: no.charsAt 2) ++ r =
      (yes'.charsAt 3 ++ ' ' :: ':' :: ' ' :: no'.charsAt 2) ++ r') :
    choose yes no = choose yes' no' ∧ r = r' := by
  simp only [List.append_assoc, List.cons_append] at h hlen
  have hends : ∀ x : List Char, levelAfter (' ' :: ':' :: x) < 3 := fun _ => Nat.zero_lt_succ 2
  obtain ⟨rfl, hcolon⟩ := hu (p := 3) hs.1 hs'.1 (by decide) hlen (hends _) (hends _) h
  have hno := (List.cons.inj (List.cons.inj (List.cons.inj hcolon).2).2).2
  have hshort : (no.charsAt 2 ++ r).length < n := by
    rw [List.length_append, List.length_cons, List.length_cons, List.length_cons] at hlen
    omega
  obtain ⟨rfl, rfl⟩ := hu (p := 2) hs.2 hs'.2 (by decide) hshort hr hr' hno
  exact ⟨rfl, rfl⟩

/-- A suffix with a sign and what follows it are determined. -/
theorem append_inj_of_signed (hu : UniqueBelow n) {s s' : Suffix} {sign : Sign}
    {body body' : List Char} (hsigned : s.signed? = some (sign, body))
    (hsigned' : s'.signed? = some (sign, body')) (hs : s.Operational) (hs' : s'.Operational)
    (hlen : (body ++ r).length < n) (hr : levelAfter r < s.reach) (hr' : levelAfter r' < s'.reach)
    (h : body ++ r = body' ++ r') : s = s' ∧ r = r' := by
  cases s <;> cases hsigned <;> cases s' <;> cases hsigned'
  case op.refl.op.refl o rhs rhs' =>
    have ho : o.precedence + 1 ≤ 15 := by cases o <;> decide
    obtain ⟨rfl, rfl⟩ := hu (p := o.precedence + 1) hs hs' ho hlen hr hr' h
    exact ⟨rfl, rfl⟩
  case isA.refl.isA.refl ty ty' =>
    have hstops : ∀ {x : List Char}, levelAfter x < 9 → StopsAt isDottedChar x := fun hx =>
      stopsAt_isDottedChar (Nat.lt_trans hx (by decide))
    obtain ⟨rfl, rfl⟩ := Ty.IsDotted.append_inj hs hs' (hstops hr) (hstops hr') h
    exact ⟨rfl, rfl⟩
  case choose.refl.choose.refl yes no yes' no' => exact choose_append_inj hu hs hs' hlen hr hr' h
  case set.refl.set.refl value value' =>
    obtain ⟨rfl, rfl⟩ := hu (p := 1) hs hs' (by decide) hlen hr hr' h
    exact ⟨rfl, rfl⟩

/-- A suffix and what follows it are determined. -/
theorem append_inj (hu : UniqueBelow n) {s s' : Suffix} (hs : s.Operational)
    (hs' : s'.Operational) (hlen : (s.chars ++ r).length < n + 1) (hr : levelAfter r < s.reach)
    (hr' : levelAfter r' < s'.reach) (h : s.chars ++ r = s'.chars ++ r') : s = s' ∧ r = r' := by
  cases hsigned : s.signed? with
  | some found =>
    obtain ⟨sign, body⟩ := found
    obtain ⟨body', hsigned', hbody⟩ := signed?_of_append_eq h hsigned
    rw [chars_of_signed hsigned, List.length_cons, List.length_append, List.length_cons] at hlen
    exact append_inj_of_signed hu hsigned hsigned' hs hs' (by omega) hr hr' hbody
  | none =>
    cases hsigned' : s'.signed? with
    | some found =>
      obtain ⟨sign, body⟩ := found
      obtain ⟨body', hfound, -⟩ := signed?_of_append_eq h.symm hsigned'
      rw [hsigned] at hfound
      contradiction
    | none =>
      cases s <;> cases hsigned <;> cases s' <;> cases hsigned'
      case dot.refl.dot.refl q q' =>
        have hlen' : (q.chars ++ r).length < n + 1 := Nat.lt_of_succ_lt hlen
        obtain ⟨rfl, rfl⟩ := Phrase.append_inj hu hs hs' hlen' hr hr' (List.cons.inj h).2
        exact ⟨rfl, rfl⟩
      case item.refl.item.refl position position' =>
        simp only [chars, List.cons_append, List.append_assoc, List.nil_append, List.length_cons,
          Nat.add_lt_add_iff_right] at h hlen
        obtain ⟨rfl, htail⟩ := hu.chars_append_inj hs hs' hlen rfl rfl (List.cons.inj h).2
        exact ⟨rfl, (List.cons.inj htail).2⟩
      case dot.refl.item.refl | item.refl.dot.refl =>
        exact absurd (List.cons.inj h).1 (by decide)

end Suffix

/-- What does not bind as tightly as an operand's position demands is no suffix of the
operand. -/
theorem Linked.ne_append {p level : Nat} {s : Suffix} {rest : List Suffix} {x : List Char}
    (h : Linked p level (s :: rest)) (hr : levelAfter r < p) :
    r ≠ (s :: rest).flatMap Suffix.chars ++ x := by
  rintro rfl
  rw [List.flatMap_cons, List.append_assoc, s.levelAfter_chars_append] at hr
  exact absurd h.2.le (Nat.not_le.mpr hr)

/-- Suffixes and what follows them are determined. -/
theorem Linked.append_inj (hu : UniqueBelow n) {p : Nat} (hr : levelAfter r < p)
    (hr' : levelAfter r' < p) :
    ∀ {suffixes suffixes' : List Suffix} {level level' : Nat},
      (∀ s ∈ suffixes, s.Operational) → (∀ s ∈ suffixes', s.Operational) →
        Linked p level suffixes → Linked p level' suffixes' →
          (suffixes.flatMap Suffix.chars ++ r).length < n + 1 →
            suffixes.flatMap Suffix.chars ++ r = suffixes'.flatMap Suffix.chars ++ r' →
              suffixes = suffixes' ∧ r = r'
  | [], [], _, _, _, _, _, _, _, h => ⟨rfl, h⟩
  | [], _ :: _, _, _, _, _, _, hlinked', _, h => absurd h (hlinked'.ne_append hr)
  | _ :: _, [], _, _, _, _, hlinked, _, _, h => absurd h.symm (hlinked.ne_append hr')
  | s :: rest, s' :: rest', _, _, hs, hs', hlinked, hlinked', hlen, h => by
    obtain ⟨hfirst, hrest⟩ := List.forall_mem_cons.mp hs
    obtain ⟨hfirst', hrest'⟩ := List.forall_mem_cons.mp hs'
    rw [List.flatMap_cons, List.append_assoc] at hlen
    rw [List.flatMap_cons, List.flatMap_cons, List.append_assoc, List.append_assoc] at h
    obtain ⟨rfl, htail⟩ := Suffix.append_inj hu hfirst hfirst' hlen
      (hlinked.2.levelAfter_lt hr s.level_le_reach s.level_lt_reach)
      (hlinked'.2.levelAfter_lt hr' s'.level_le_reach s'.level_lt_reach) h
    rw [List.length_append] at hlen
    obtain ⟨rfl, rfl⟩ := Linked.append_inj hu hr hr' hrest hrest' hlinked.2 hlinked'.2
      (by omega) htail
    exact ⟨rfl, rfl⟩

/-! ### Expressions -/

/-- The spine of an operand and what follows it are determined. -/
theorem Spine.append_inj (hu : UniqueBelow n) {p : Nat} {x x' : Spine} (hx : x.Valid p)
    (hx' : x'.Valid p) (hlen : (x.chars ++ r).length < n + 1) (hr : levelAfter r < p)
    (hr' : levelAfter r' < p) (h : x.chars ++ r = x'.chars ++ r') : x = x' ∧ r = r' := by
  obtain ⟨head, suffixes⟩ := x
  obtain ⟨head', suffixes'⟩ := x'
  rw [chars, List.append_assoc] at hlen
  rw [chars, chars, List.append_assoc, List.append_assoc] at h
  obtain ⟨rfl, htail⟩ := Head.append_inj hu hx.head hx'.head hlen
    (hx.linked.levelAfter_lt hr (Nat.le_refl _) head.level_lt)
    (hx'.linked.levelAfter_lt hr' (Nat.le_refl _) head'.level_lt) h
  rw [List.length_append] at hlen
  obtain ⟨rfl, rfl⟩ := Linked.append_inj hu hr hr' hx.suffixes hx'.suffixes hx.linked hx'.linked
    (by omega) htail
  exact ⟨rfl, rfl⟩

theorem uniqueBelow (n : Nat) : UniqueBelow n := by
  induction n with
  | zero => exact fun p e e' r r' _ _ _ hlen => absurd hlen (Nat.not_lt_zero _)
  | succ n hu =>
    intro p e e' r r' he he' hp hlen hr hr' h
    obtain ⟨x, hx, rfl, hchars⟩ := he.exists_spine hp
    obtain ⟨x', hx', rfl, hchars'⟩ := he'.exists_spine hp
    rw [← hchars] at hlen
    rw [← hchars, ← hchars'] at h
    obtain ⟨rfl, rfl⟩ := Spine.append_inj hu hx hx' hlen hr hr' h
    exact ⟨rfl, rfl⟩

namespace Expr

/-- Operator expressions that are not the same are not written the same. -/
theorem text_ne_of_operational {e e' : Expr} (he : e.Operational) (he' : e'.Operational)
    (hne : e ≠ e') : e.text ≠ e'.text := by
  intro htext
  have hchars : e.chars ++ [] = e'.chars ++ [] := by
    rw [chars, chars, htext]
  exact hne ((uniqueBelow _).chars_append_inj he he' (Nat.lt_succ_self _) rfl rfl hchars).1

/-- A member of a cast and a cast of a member are told apart: `((demo.A) x).f()` and
`(demo.A) x.f()`. -/
theorem castMembers_written_apart :
    (Expr.callOn (.cast (.cls "demo.A") (.ident "x")) "f" []).Operational ∧
      (Expr.cast (.cls "demo.A") (.callOn (.ident "x") "f" [])).Operational ∧
      (Expr.callOn (.cast (.cls "demo.A") (.ident "x")) "f" []).text ≠
        (Expr.cast (.cls "demo.A") (.callOn (.ident "x") "f" [])).text := by
  have hx : (Expr.ident "x").Operational := .ident (by decide)
  have hty : (Ty.cls "demo.A").IsDotted := ⟨"demo", ["A"], by decide, rfl⟩
  have hcall : ∀ {e : Expr}, e.Operational → (Expr.callOn e "f" []).Operational := fun he =>
    .callOn he (by simp) (by decide) (by simp)
  have hmember := hcall (.cast hty hx)
  have hcast : (Expr.cast (.cls "demo.A") (.callOn (.ident "x") "f" [])).Operational :=
    .cast hty (hcall hx)
  exact ⟨hmember, hcast, text_ne_of_operational hmember hcast (by simp [callOn])⟩

end Expr

end TreeLowering.Target
