import TreeLowering.Proofs.WrittenWord
import TreeLowering.Target.Render
set_option autoImplicit false

/-!
# Proofs: spines of operator expressions

An expression of operators is written from its left end: first a head, that is a name, a
literal, a call, something in parentheses, a negation or a cast, and then suffixes, each
of which takes what stands before it as its operand.  What stands before a suffix binds
as tightly as the suffix demands, or it is a head in parentheses.
-/

namespace TreeLowering.Target

open Text

/-! ## Operator expressions -/

/-- An identifier that is not written like a literal. -/
def IsName (name : String) : Prop := IsIdentifier name ∧ name ∉ ["null", "true", "false"]

instance (name : String) : Decidable (IsName name) := inferInstanceAs (Decidable (_ ∧ _))

/-- A class by its name, which consists of names with points between them. -/
def Ty.IsDotted (ty : Ty) : Prop :=
  ∃ first rest, (∀ part ∈ first :: rest, IsName part) ∧
    ty = .cls (".".intercalate (first :: rest))

/-- The absent value, a truth value or an integer. -/
def Literal.IsPlain : Literal → Prop
  | .null | .bool _ | .int _ | .long _ => True
  | .double _ | .char _ | .string _ => False

/-- An expression of names, plain literals, members, calls, indexing, casts and type tests
to classes by their names, operators, choices and assignments. -/
inductive Expr.Operational : Expr → Prop where
  | ident {name : String} (hname : IsName name) : Operational (.ident name)
  | lit {value : Literal} (hvalue : value.IsPlain) : Operational (.lit value)
  | select {target : Expr} {name : String} (htarget : Operational target) (hname : IsName name) :
    Operational (.select target name)
  | callLocal {typeArgs : List Ty} {method : String} {args : List Expr}
    (htypeArgs : ∀ ty ∈ typeArgs, ty.IsDotted) (hmethod : IsName method)
    (hargs : ∀ e ∈ args, Operational e) : Operational (.call none typeArgs method args)
  | callOn {target : Expr} {typeArgs : List Ty} {method : String} {args : List Expr}
    (htarget : Operational target) (htypeArgs : ∀ ty ∈ typeArgs, ty.IsDotted)
    (hmethod : IsName method) (hargs : ∀ e ∈ args, Operational e) :
    Operational (.call (some target) typeArgs method args)
  | index {array position : Expr} (harray : Operational array)
    (hposition : Operational position) : Operational (.index array position)
  | cast {ty : Ty} {value : Expr} (hty : ty.IsDotted) (hvalue : Operational value) :
    Operational (.cast ty value)
  | instanceOf {value : Expr} {ty : Ty} (hvalue : Operational value) (hty : ty.IsDotted) :
    Operational (.instanceOf value ty)
  | binary {op : BinaryOp} {lhs rhs : Expr} (hlhs : Operational lhs) (hrhs : Operational rhs) :
    Operational (.binary op lhs rhs)
  | not {operand : Expr} (hoperand : Operational operand) : Operational (.not operand)
  | cond {test yes no : Expr} (htest : Operational test) (hyes : Operational yes)
    (hno : Operational no) : Operational (.cond test yes no)
  | assign {target value : Expr} (htarget : Operational target) (hvalue : Operational value) :
    Operational (.assign target value)

/-! ## Characters of written expressions -/

/-- The characters of a written expression. -/
def Expr.chars (e : Expr) : List Char := e.text.toList

/-- The characters of an operand at a position that demands a binding strength. -/
def Expr.charsAt (demanded : Nat) (e : Expr) : List Char :=
  (operand e.precedence demanded e.text).toList

/-- The characters of a written type. -/
def Ty.chars (ty : Ty) : List Char := ty.text.toList

/-- The characters of an operator. -/
def BinaryOp.chars (op : BinaryOp) : List Char := op.symbol.toList

/-- The characters of a call after its receiver. -/
def callChars (typeArgs : List Ty) (method : String) (args : List Expr) : List Char :=
  (typeArgsText typeArgs).toList ++ (method.toList ++
    '(' :: (commaList (args.map Expr.chars) ++ [')']))

namespace Expr

theorem charsAt_of_le {p : Nat} {e : Expr} (h : p ≤ e.precedence) : e.charsAt p = e.chars := by
  rw [charsAt, operand, if_neg (Nat.not_lt.mpr h), chars]

theorem charsAt_of_lt {p : Nat} {e : Expr} (h : e.precedence < p) :
    e.charsAt p = '(' :: (e.chars ++ [')']) := by
  simp [charsAt, operand, if_pos h, chars]

theorem one_le_precedence (e : Expr) : 1 ≤ e.precedence := by
  cases e with
  | binary op _ _ => cases op <;> simp [precedence, BinaryOp.precedence]
  | _ => simp [precedence]

theorem charsAt_one (e : Expr) : e.charsAt 1 = e.chars := charsAt_of_le e.one_le_precedence

theorem exprTexts_eq (depth : Nat) (es : List Expr) :
    exprTexts depth es = es.map (Expr.textAt depth) := by
  induction es with
  | nil => simp [exprTexts]
  | cons e es ih => simp [exprTexts, ih]

theorem toList_intercalate_exprTexts (es : List Expr) :
    (", ".intercalate (exprTexts 0 es)).toList = commaList (es.map chars) := by
  rw [exprTexts_eq, String.toList_intercalate, List.map_map]
  rfl

theorem toList_callText (typeArgs : List Ty) (method : String) (args : List Expr) :
    (typeArgsText typeArgs ++ method ++ "(" ++ ", ".intercalate (exprTexts 0 args)
      ++ ")").toList = callChars typeArgs method args := by
  simp only [String.toList_append, toList_intercalate_exprTexts, callChars, List.append_assoc]
  rfl

attribute [local simp] text textAt chars charsAt

theorem chars_ident (name : String) : (ident name).chars = name.toList := by
  simp

theorem chars_lit (value : Literal) : (lit value).chars = value.text.toList := by
  simp

theorem chars_select (target : Expr) (name : String) :
    (select target name).chars = target.charsAt 15 ++ '.' :: name.toList := by
  simp

theorem chars_callLocal (typeArgs : List Ty) (method : String) (args : List Expr) :
    (call none typeArgs method args).chars = callChars typeArgs method args := by
  simp only [chars, text, textAt, receiverText, String.empty_append, toList_callText]

theorem chars_callOn (target : Expr) (typeArgs : List Ty) (method : String) (args : List Expr) :
    (call (some target) typeArgs method args).chars =
      target.charsAt 15 ++ '.' :: callChars typeArgs method args := by
  rw [← toList_callText]
  simp [receiverText]

theorem chars_index (array position : Expr) :
    (index array position).chars = array.charsAt 15 ++ '[' :: (position.chars ++ [']']) := by
  simp

theorem chars_cast (ty : Ty) (value : Expr) :
    (cast ty value).chars = '(' :: (ty.chars ++ ')' :: ' ' :: value.charsAt 13) := by
  simp [Ty.chars]

theorem chars_instanceOf (value : Expr) (ty : Ty) :
    (instanceOf value ty).chars =
      value.charsAt 9 ++ ' ' :: ("instanceof".toList ++ ' ' :: ty.chars) := by
  simp [Ty.chars]

theorem chars_binary (op : BinaryOp) (lhs rhs : Expr) :
    (binary op lhs rhs).chars = lhs.charsAt op.precedence ++
      ' ' :: (op.chars ++ ' ' :: rhs.charsAt (op.precedence + 1)) := by
  simp [BinaryOp.chars]

theorem chars_not (e : Expr) : (Expr.not e).chars = '!' :: e.charsAt 13 := by
  simp

theorem chars_assign (target value : Expr) :
    (assign target value).chars =
      target.charsAt 2 ++ ' ' :: (['='] ++ ' ' :: value.charsAt 1) := by
  simp

theorem chars_cond (test yes no : Expr) :
    (cond test yes no).chars = test.charsAt 3 ++
      ' ' :: (['?'] ++ ' ' :: (yes.charsAt 3 ++ ' ' :: ':' :: ' ' :: no.charsAt 2)) := by
  simp

end Expr

/-! ## Spines -/

/-- A name or a call, at the head of an expression or after a point. -/
inductive Phrase where
  | name (name : String)
  | call (typeArgs : List Ty) (method : String) (args : List Expr)

/-- What an expression starts with. -/
inductive Head where
  | phrase (phrase : Phrase)
  | lit (value : Literal)
  /-- An expression in parentheses. -/
  | group (e : Expr)
  | not (operand : Expr)
  | cast (ty : Ty) (value : Expr)

/-- What an expression goes on with. -/
inductive Suffix where
  | dot (phrase : Phrase)
  | item (position : Expr)
  | op (op : BinaryOp) (rhs : Expr)
  | isA (ty : Ty)
  | choose (yes no : Expr)
  | set (value : Expr)

namespace Phrase

def chars : Phrase → List Char
  | name n => n.toList
  | call typeArgs method args => callChars typeArgs method args

/-- The parts of the phrase are names, classes by their names and operator expressions. -/
def Operational : Phrase → Prop
  | name n => IsName n
  | call typeArgs method args =>
    (∀ ty ∈ typeArgs, ty.IsDotted) ∧ IsName method ∧ ∀ e ∈ args, e.Operational

end Phrase

namespace Head

/-- The expression that the head is. -/
def expr : Head → Expr
  | phrase (.name n) => .ident n
  | phrase (.call typeArgs method args) => .call none typeArgs method args
  | lit value => .lit value
  | group e => e
  | not operand => .not operand
  | cast ty value => .cast ty value

def chars : Head → List Char
  | phrase p => p.chars
  | lit value => value.text.toList
  | group e => '(' :: (e.chars ++ [')'])
  | not operand => '!' :: operand.charsAt 13
  | cast ty value => '(' :: (ty.chars ++ ')' :: ' ' :: value.charsAt 13)

/-- How tightly the head binds. -/
def level : Head → Nat
  | phrase _ | lit _ | group _ => 16
  | not _ | cast _ _ => 13

/-- The parts of the head are parts of operator expressions, and only expressions that bind
less tightly than members stand in parentheses. -/
def Operational : Head → Prop
  | phrase p => p.Operational
  | lit value => value.IsPlain
  | group e => e.Operational ∧ e.precedence < 15
  | not operand => operand.Operational
  | cast ty value => ty.IsDotted ∧ value.Operational

end Head

namespace Suffix

/-- The expression that goes on with the suffix. -/
def onto (e : Expr) : Suffix → Expr
  | dot (.name n) => .select e n
  | dot (.call typeArgs method args) => .call (some e) typeArgs method args
  | item position => .index e position
  | op o rhs => .binary o e rhs
  | isA ty => .instanceOf e ty
  | choose yes no => .cond e yes no
  | set value => .assign e value

def chars : Suffix → List Char
  | dot p => '.' :: p.chars
  | item position => '[' :: (position.chars ++ [']'])
  | op o rhs => ' ' :: (o.chars ++ ' ' :: rhs.charsAt (o.precedence + 1))
  | isA ty => ' ' :: ("instanceof".toList ++ ' ' :: ty.chars)
  | choose yes no =>
    ' ' :: (['?'] ++ ' ' :: (yes.charsAt 3 ++ ' ' :: ':' :: ' ' :: no.charsAt 2))
  | set value => ' ' :: (['='] ++ ' ' :: value.charsAt 1)

/-- How tightly an expression binds that ends with the suffix. -/
def level : Suffix → Nat
  | dot _ | item _ => 15
  | op o _ => o.precedence
  | isA _ => 8
  | choose _ _ => 2
  | set _ => 1

/-- How tightly what stands before the suffix has to bind. -/
def demand : Suffix → Nat
  | dot _ | item _ => 15
  | op o _ => o.precedence
  | isA _ => 9
  | choose _ _ => 3
  | set _ => 2

/-- Less tightly than that binds whatever follows the suffix. -/
def reach : Suffix → Nat
  | dot _ | item _ => 16
  | op o _ => o.precedence + 1
  | isA _ => 9
  | choose _ _ => 2
  | set _ => 1

/-- The parts of the suffix are parts of operator expressions. -/
def Operational : Suffix → Prop
  | dot p => p.Operational
  | item position => position.Operational
  | op _ rhs => rhs.Operational
  | isA ty => ty.IsDotted
  | choose yes no => yes.Operational ∧ no.Operational
  | set value => value.Operational

theorem level_le_demand (s : Suffix) : s.level ≤ s.demand := by
  cases s <;> simp [level, demand]

theorem demand_le (s : Suffix) : s.demand ≤ 15 := by
  cases s with
  | op o _ => cases o <;> simp [demand, BinaryOp.precedence]
  | _ => simp [demand]

theorem precedence_onto (s : Suffix) (e : Expr) : (s.onto e).precedence = s.level := by
  cases s with
  | dot p => cases p <;> rfl
  | _ => rfl

theorem chars_onto (s : Suffix) (e : Expr) :
    (s.onto e).chars = e.charsAt s.demand ++ s.chars := by
  cases s with
  | dot p =>
    cases p with
    | name n => exact Expr.chars_select e n
    | call typeArgs method args => exact Expr.chars_callOn e typeArgs method args
  | item position => exact Expr.chars_index e position
  | op o rhs => exact Expr.chars_binary o e rhs
  | isA ty => exact Expr.chars_instanceOf e ty
  | choose yes no => exact Expr.chars_cond e yes no
  | set value => exact Expr.chars_assign e value

end Suffix

/-- Each suffix is one that what stands before it binds tightly enough for, starting from
the given strength; what stands before the end binds at least as tightly as demanded. -/
def Linked (demanded : Nat) : Nat → List Suffix → Prop
  | level, [] => demanded ≤ level
  | level, s :: rest => s.demand ≤ level ∧ Linked demanded s.level rest

namespace Linked

variable {p level level' : Nat} {suffixes : List Suffix}

theorem le (h : Linked p level suffixes) : p ≤ level := by
  induction suffixes generalizing level with
  | nil => exact h
  | cons s rest ih => exact Nat.le_trans (ih h.2) (Nat.le_trans s.level_le_demand h.1)

theorem mono (h : Linked p level suffixes) (hle : level ≤ level') : Linked p level' suffixes := by
  cases suffixes with
  | nil => exact Nat.le_trans h hle
  | cons s rest => exact ⟨Nat.le_trans h.1 hle, h.2⟩

end Linked

/-- A head and the suffixes after it. -/
structure Spine where
  head : Head
  suffixes : List Suffix

namespace Spine

/-- The expression with the spine. -/
def expr (x : Spine) : Expr := x.suffixes.foldl (fun e s => s.onto e) x.head.expr

def chars (x : Spine) : List Char := x.head.chars ++ x.suffixes.flatMap Suffix.chars

/-- The spine is one of an operand at a position that demands a binding strength. -/
structure Valid (demanded : Nat) (x : Spine) : Prop where
  head : x.head.Operational
  suffixes : ∀ s ∈ x.suffixes, s.Operational
  linked : Linked demanded x.head.level x.suffixes

end Spine

namespace Expr

/-- Where suffixes can follow an operand, both together are written with a spine. -/
def HasSpine (e : Expr) : Prop :=
  ∀ ⦃p q : Nat⦄ ⦃suffixes : List Suffix⦄, p ≤ 15 → (∀ s ∈ suffixes, s.Operational) →
    Linked q p suffixes →
      ∃ x : Spine, x.Valid q ∧ x.expr = suffixes.foldl (fun e s => s.onto e) e ∧
        x.chars = e.charsAt p ++ suffixes.flatMap Suffix.chars

/-- In parentheses, every operator expression is a head. -/
theorem exists_spine_of_lt {e : Expr} {p q : Nat} {suffixes : List Suffix} (he : e.Operational)
    (hlt : e.precedence < p) (hp : p ≤ 15) (hsuffixes : ∀ s ∈ suffixes, s.Operational)
    (hlinked : Linked q p suffixes) :
    ∃ x : Spine, x.Valid q ∧ x.expr = suffixes.foldl (fun e s => s.onto e) e ∧
      x.chars = e.charsAt p ++ suffixes.flatMap Suffix.chars := by
  have hgroup : (Head.group e).Operational := ⟨he, Nat.lt_of_lt_of_le hlt hp⟩
  refine ⟨⟨.group e, suffixes⟩, ⟨hgroup, hsuffixes, hlinked.mono ?_⟩, rfl, ?_⟩
  · exact Nat.le_succ_of_le hp
  · rw [charsAt_of_lt hlt]
    rfl

theorem HasSpine.of_head {h : Head} (he : h.expr.Operational) (hop : h.Operational)
    (hchars : h.expr.chars = h.chars) (hle : h.expr.precedence ≤ h.level) :
    h.expr.HasSpine := by
  intro p q suffixes hp hsuffixes hlinked
  by_cases hlt : h.expr.precedence < p
  · exact exists_spine_of_lt he hlt hp hsuffixes hlinked
  · have hprec := Nat.not_lt.mp hlt
    refine ⟨⟨h, suffixes⟩, ⟨hop, hsuffixes, hlinked.mono (Nat.le_trans hprec hle)⟩, rfl, ?_⟩
    rw [charsAt_of_le hprec, hchars]
    rfl

theorem HasSpine.onto {s : Suffix} {e : Expr} (he : (s.onto e).Operational)
    (hs : s.Operational) (hspine : e.HasSpine) : (s.onto e).HasSpine := by
  intro p q suffixes hp hsuffixes hlinked
  by_cases hlt : (s.onto e).precedence < p
  · exact exists_spine_of_lt he hlt hp hsuffixes hlinked
  · have hprec := Nat.not_lt.mp hlt
    have hlevel : p ≤ s.level := s.precedence_onto e ▸ hprec
    obtain ⟨x, hvalid, hexpr, hchars⟩ := @hspine s.demand q (s :: suffixes) s.demand_le
      (List.forall_mem_cons.mpr ⟨hs, hsuffixes⟩) ⟨Nat.le_refl _, hlinked.mono hlevel⟩
    refine ⟨x, hvalid, hexpr, hchars.trans ?_⟩
    rw [charsAt_of_le hprec, s.chars_onto, List.flatMap_cons, List.append_assoc]

theorem Operational.hasSpine {e : Expr} (he : e.Operational) : e.HasSpine := by
  induction he with
  | @ident name hname =>
    exact HasSpine.of_head (h := .phrase (.name name)) (.ident hname) hname (chars_ident name)
      (Nat.le_refl _)
  | @lit value hvalue =>
    exact HasSpine.of_head (h := .lit value) (.lit hvalue) hvalue (chars_lit value)
      (Nat.le_refl _)
  | @select target name htarget hname ih =>
    exact HasSpine.onto (s := .dot (.name name)) (.select htarget hname) hname ih
  | @callLocal typeArgs method args htypeArgs hmethod hargs _ =>
    exact HasSpine.of_head (h := .phrase (.call typeArgs method args))
      (.callLocal htypeArgs hmethod hargs) ⟨htypeArgs, hmethod, hargs⟩
      (chars_callLocal typeArgs method args) (Nat.le_succ _)
  | @callOn target typeArgs method args htarget htypeArgs hmethod hargs ih _ =>
    exact HasSpine.onto (s := .dot (.call typeArgs method args))
      (.callOn htarget htypeArgs hmethod hargs) ⟨htypeArgs, hmethod, hargs⟩ ih
  | @index array position harray hposition ih _ =>
    exact HasSpine.onto (s := .item position) (.index harray hposition) hposition ih
  | @cast ty value hty hvalue _ =>
    exact HasSpine.of_head (h := .cast ty value) (.cast hty hvalue) ⟨hty, hvalue⟩
      (chars_cast ty value) (Nat.le_refl _)
  | @instanceOf value ty hvalue hty ih =>
    exact HasSpine.onto (s := .isA ty) (.instanceOf hvalue hty) hty ih
  | @binary op lhs rhs hlhs hrhs ih _ =>
    exact HasSpine.onto (s := .op op rhs) (.binary hlhs hrhs) hrhs ih
  | @not operand hoperand _ =>
    exact HasSpine.of_head (h := .not operand) (.not hoperand) hoperand (chars_not operand)
      (Nat.le_refl _)
  | @cond test yes no htest hyes hno ih _ _ =>
    exact HasSpine.onto (s := .choose yes no) (.cond htest hyes hno) ⟨hyes, hno⟩ ih
  | @assign target value htarget hvalue ih _ =>
    exact HasSpine.onto (s := .set value) (.assign htarget hvalue) hvalue ih

/-- An operand has a spine. -/
theorem Operational.exists_spine {e : Expr} (he : e.Operational) {p : Nat} (hp : p ≤ 15) :
    ∃ x : Spine, x.Valid p ∧ x.expr = e ∧ x.chars = e.charsAt p := by
  obtain ⟨x, hvalid, hexpr, hchars⟩ :=
    he.hasSpine hp (fun _ hs => absurd hs List.not_mem_nil) (Nat.le_refl p)
  exact ⟨x, hvalid, hexpr, hchars.trans (List.append_nil _)⟩

end Expr

end TreeLowering.Target
