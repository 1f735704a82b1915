import TreeLowering.Proofs.FormConversion
set_option autoImplicit false

/-!
# Proofs: the forms that equality compares

Equality is lowered to an operator or to a call, as the type of the left operand
says, and both operands are asked for in the form that goes with it.  Each of
them arrives in that form as its own type allows.  So two operands of types that
agree about the choice are compared alike; of a number and an object, the operator
gets the object boxed.
-/

namespace TreeLowering

/-- The code that compares two operands: an operator on them, or a call of the
first one's method. -/
def Target.Expr.equality (direct : Bool) (op : Tree.Operator) (lhs rhs : Target.Expr) :
    Target.Expr :=
  let equal := if direct then .binary .eq lhs rhs else lhs.callOn Support.equals [rhs]
  if op = .ne then .not equal else equal

theorem Target.Expr.equality_inj {direct direct' : Bool} {op : Tree.Operator}
    {lhs lhs' rhs rhs' : Target.Expr}
    (h : equality direct op lhs rhs = equality direct' op lhs' rhs') :
    direct = direct' ∧ lhs = lhs' ∧ rhs = rhs' := by
  unfold equality at h
  -- Both are negated or neither is, so that a negation can be taken away.
  have hequal : (if direct then .binary .eq lhs rhs else lhs.callOn Support.equals [rhs]) =
      if direct' then .binary .eq lhs' rhs' else lhs'.callOn Support.equals [rhs'] := by
    dsimp only at h
    split at h
    · exact Target.Expr.not.inj h
    · exact h
  cases direct with
  | false =>
    cases direct' with
    | false => simpa [Target.Expr.callOn] using hequal
    | true => cases hequal
  | true =>
    cases direct' with
    | false => cases hequal
    | true => simpa using hequal

/-- Code that compares is the operator on some operands exactly when it is so as
it is. -/
theorem Target.Expr.exists_equality_iff {direct : Bool} {op : Tree.Operator}
    {lhs rhs : Target.Expr} :
    (∃ l r, equality direct op lhs rhs = equality true op l r) ↔ direct = true := by
  constructor
  · rintro ⟨l, r, heq⟩
    exact (equality_inj heq).1
  · rintro rfl
    exact ⟨lhs, rhs, rfl⟩

namespace Env

open Lowering

variable {env : Env} {s s' : LowerState} {t : Ty}

/-- A lowered expression in boxed form: as it is, or under a boxing conversion. -/
def Natural.BoxedAs (env : Env) (n : Natural) (code : Target.Expr) : Prop :=
  n.raw = false ∧ code = n.code ∨ n.raw = true ∧ env.BoxedAs n.code code

/-- A value that boxed form is asked for arrives boxed exactly when it is boxed by
nature or of a type that raw values are converted for. -/
theorem boxedAs_convert_iff {n : Natural} {code : Target.Expr}
    (h : Yields (env.convert n.code (!n.raw) t .boxed) s code s') :
    n.BoxedAs env code ↔ n.raw = false ∨ env.boxes t = true := by
  cases hraw : n.raw with
  | false =>
    rw [hraw] at h
    obtain ⟨rfl, _⟩ := yields_pure.mp h
    exact iff_of_true (.inl ⟨hraw, rfl⟩) (.inl rfl)
  | true =>
    rw [hraw] at h
    have hbox : Yields (liftM (env.boxValue n.code t)) s code s' := h
    unfold Natural.BoxedAs
    simp only [hraw, Bool.true_eq_false, false_and, true_and, false_or]
    rcases boxedAs_of_boxValue hbox.answer with ⟨htrue, hboxed⟩ | ⟨hfalse, hself⟩
    · exact iff_of_true hboxed htrue
    · exact iff_of_false (fun hboxed => hboxed.ne hself) (by simp [hfalse])

/-- What a position gets is the natural form of an expression, converted. -/
theorem yields_deliver {e : Tree.Expr} {form : Form} {code : Target.Expr} (hform : form ≠ .asIs)
    (h : Yields (env.deliver e.info form (env.lowerNatural e)) s code s') :
    ∃ n t, Yields (env.lowerNatural e) s n t ∧
      Yields (env.convert n.code (!n.raw) e.ty form) t code s' := by
  obtain ⟨n, t, hn, h⟩ := yields_bind.mp h
  rw [if_neg hform] at h
  exact ⟨n, t, hn, h⟩

/-! ## Operands -/

theorem applyOperator_equality {op : Tree.Operator} (hop : op.direct? = none) (t : Ty)
    (lhs rhs : Target.Expr) :
    env.applyOperator op t lhs rhs = .equality (env.comparesRaw t) op lhs rhs := by
  unfold applyOperator
  rw [hop]
  rfl

theorem operandForm_equality {op : Tree.Operator} (hop : op.direct? = none) (t : Ty) :
    env.operandForm op t = if env.comparesRaw t then .raw else .boxed := by
  unfold operandForm
  rw [hop]

/-- Equality takes its operands apart: each is lowered and converted to the form
that the left one's type asks for. -/
theorem yields_equality {info : Tree.Info} {op : Tree.Operator} (hop : op.direct? = none)
    {lhs rhs : Tree.Expr} {n : Natural}
    (h : Yields (env.lowerNatural (.binary info op lhs rhs)) s n s') :
    ∃ left l s₁ s₂ right r s₃, Yields (env.lowerNatural lhs) s left s₁ ∧
      Yields (env.convert left.code (!left.raw) lhs.ty
        (if env.comparesRaw lhs.ty then .raw else .boxed)) s₁ l s₂ ∧
      Yields (env.lowerNatural rhs) s₂ right s₃ ∧
      Yields (env.convert right.code (!right.raw) rhs.ty
        (if env.comparesRaw lhs.ty then .raw else .boxed)) s₃ r s' ∧
      n = .ofRaw (.equality (env.comparesRaw lhs.ty) op l r) := by
  rw [lowerNatural] at h
  obtain ⟨l, s₂, hl, h⟩ := yields_bind.mp h
  obtain ⟨r, s₄, hr, h⟩ := yields_bind.mp h
  obtain ⟨rfl, rfl⟩ := yields_pure.mp h
  rw [operandForm_equality hop] at hl hr
  have hform : (if env.comparesRaw lhs.ty then Form.raw else .boxed) ≠ .asIs := by
    split <;> decide
  obtain ⟨left, s₁, hleft, hl⟩ := yields_deliver hform hl
  obtain ⟨right, s₃, hright, hr⟩ := yields_deliver hform hr
  exact ⟨left, l, s₁, s₂, right, r, s₃, hleft, hl, hright, hr,
    by rw [applyOperator_equality hop]⟩

/-- Values of a type that are compared raw are converted both ways. -/
theorem converts_of_comparesRaw (h : env.comparesRaw t = true) :
    env.converts t = true ∧ env.boxes t = true := by
  rw [comparesRaw, Bool.and_eq_true] at h
  have hconverts := h.1
  rw [isBasic_eq, Bool.or_eq_true] at hconverts
  refine ⟨?_, by simp [boxes, h.1]⟩
  rcases hconverts with hscalar | hboolean
  · simp [converts, hscalar]
  · simp [converts, hboolean]

/-- A local of a type, in a form. -/
def localOf (t : Ty) (raw : Bool) (name : String) : Tree.Expr := .ident ⟨t, raw, .dummy⟩ name

/-- The equality of two values. -/
def equalityOf (lhs rhs : Tree.Expr) : Tree.Expr :=
  .binary ⟨Language.booleanTy, true, .dummy⟩ .eq lhs rhs

theorem yields_local {raw : Bool} {name : String} {n : Natural}
    (h : Yields (env.lowerNatural (localOf t raw name)) s n s') :
    n.raw = raw ∧ n.code.isStringLiteral = false := by
  obtain ⟨target, u, _, h⟩ := yields_bind.mp h
  obtain ⟨rfl, _⟩ := yields_pure.mp h
  exact ⟨rfl, rfl⟩

/-- An equality and its negation are lowered to the operator or to the method, as
the type of the left operand says.  An operand of the operator is raw, the left
one always and the right one exactly when it is so by nature, a string literal, or
of a type that boxed values are converted for; so it is when its own type would
ask for the operator, too.  An operand of the method is boxed exactly when it is so
by nature or of a type that raw values are converted for.  The choice is the same
for the operands the other way round exactly when their types agree about it. -/
theorem lowerNatural_equality (env : Env) (info : Tree.Info) {op : Tree.Operator}
    (hop : op = .eq ∨ op = .ne) (lhs rhs : Tree.Expr) :
    (∀ s n s', Yields (env.lowerNatural (.binary info op lhs rhs)) s n s' →
      ∃ left l right r, (∃ s₁, Yields (env.lowerNatural lhs) s left s₁) ∧
        (∃ s₂ s₃, Yields (env.lowerNatural rhs) s₂ right s₃) ∧
        n = .ofRaw (.equality (env.comparesRaw lhs.ty) op l r) ∧
        (env.comparesRaw lhs.ty = true → left.RawAs l ∧
          (right.RawAs r ↔ right.raw = true ∨ right.code.isStringLiteral = true ∨
            env.converts rhs.ty = true)) ∧
        (env.comparesRaw lhs.ty = false →
          (left.BoxedAs env l ↔ left.raw = false ∨ env.boxes lhs.ty = true) ∧
            (right.BoxedAs env r ↔ right.raw = false ∨ env.boxes rhs.ty = true))) ∧
    (∀ s n s' u k u', Yields (env.lowerNatural (.binary info op lhs rhs)) s n s' →
      Yields (env.lowerNatural (.binary info op rhs lhs)) u k u' →
        (((∃ l r, n.code = .equality true op l r) ↔ ∃ l r, k.code = .equality true op l r) ↔
          env.comparesRaw lhs.ty = env.comparesRaw rhs.ty)) ∧
    ∀ t, env.comparesRaw t = true → env.converts t = true ∧ env.boxes t = true := by
  have hdirect : op.direct? = none := by rcases hop with rfl | rfl <;> rfl
  refine ⟨fun s n s' h => ?_, fun s n s' u k u' hn hk => ?_, fun t => converts_of_comparesRaw⟩
  · obtain ⟨left, l, s₁, s₂, right, r, s₃, hleft, hl, hright, hr, rfl⟩ := yields_equality hdirect h
    refine ⟨left, l, right, r, ⟨s₁, hleft⟩, ⟨s₂, s₃, hright⟩, rfl, fun hraw => ?_,
      fun hboxed => ?_⟩
    · rw [if_pos hraw] at hl hr
      exact ⟨(rawAs_convert_iff hl).mpr (.inr (.inr (converts_of_comparesRaw hraw).1)),
        rawAs_convert_iff hr⟩
    · rw [if_neg (by simp [hboxed])] at hl hr
      exact ⟨boxedAs_convert_iff hl, boxedAs_convert_iff hr⟩
  · obtain ⟨_, l, _, _, _, r, _, -, -, -, -, rfl⟩ := yields_equality hdirect hn
    obtain ⟨_, l', _, _, _, r', _, -, -, -, -, rfl⟩ := yields_equality hdirect hk
    rw [Natural.ofRaw, Natural.ofRaw, Target.Expr.exists_equality_iff,
      Target.Expr.exists_equality_iff]
    exact Bool.eq_iff_iff.symm

/-- A raw number and a boxed one are compared raw. -/
theorem numbers_compared_raw :
    (∃ n s', Yields ((Env.of .new .standard).lowerNatural
      (equalityOf (localOf Language.integerTy true "a") (localOf Language.integerTy false "b")))
      (.start .empty) n s') ∧
    ∀ s n s', Yields ((Env.of .new .standard).lowerNatural
      (equalityOf (localOf Language.integerTy true "a") (localOf Language.integerTy false "b")))
      s n s' →
        ∃ left l right r, n = .ofRaw (.equality true .eq l r) ∧ Natural.RawAs left l ∧
          Natural.RawAs right r := by
  refine ⟨exists_yields ?_, fun s n s' h => ?_⟩
  · decide
  · have hraw : (Env.of .new .standard).comparesRaw Language.integerTy = true := by decide
    obtain ⟨hoperands, -, hconverts⟩ := lowerNatural_equality (Env.of .new .standard)
      ⟨Language.booleanTy, true, .dummy⟩ (.inl rfl) (localOf Language.integerTy true "a")
      (localOf Language.integerTy false "b")
    obtain ⟨left, l, right, r, -, -, hn, hboth, -⟩ := hoperands s n s' h
    obtain ⟨hleft, hright⟩ := hboth hraw
    have hdirect : (Env.of .new .standard).comparesRaw
        (localOf Language.integerTy true "a").ty = true := hraw
    rw [hdirect] at hn
    exact ⟨left, l, right, r, hn, hleft, hright.mpr (.inr (.inr (hconverts _ hraw).1))⟩

/-- A raw number is compared with an object by the operator, which gets the object
boxed; the object is compared with the number by its method. -/
theorem number_compared_with_object :
    (∃ n s', Yields ((Env.of .new .standard).lowerNatural
      (equalityOf (localOf Language.integerTy true "a") (localOf Language.objectTy false "o")))
      (.start .empty) n s') ∧
    (∀ s n s', Yields ((Env.of .new .standard).lowerNatural
      (equalityOf (localOf Language.integerTy true "a") (localOf Language.objectTy false "o")))
      s n s' →
        ∃ l right r s₂ s₃, Yields ((Env.of .new .standard).lowerNatural
            (localOf Language.objectTy false "o")) s₂ right s₃ ∧
          n.code = .binary .eq l r ∧ ¬ right.RawAs r) ∧
    ∀ s n s', Yields ((Env.of .new .standard).lowerNatural
      (equalityOf (localOf Language.objectTy false "o") (localOf Language.integerTy true "a")))
      s n s' → ∃ l r, n.code = .callOn l Support.equals [r] := by
  have hraw : (Env.of .new .standard).comparesRaw
      (localOf Language.integerTy true "a").ty = true := by decide
  have hboxed : (Env.of .new .standard).comparesRaw
      (localOf Language.objectTy false "o").ty = false := by decide
  have hstays : (Env.of .new .standard).converts
      (localOf Language.objectTy false "o").ty = false := by decide
  refine ⟨exists_yields ?_, fun s n s' h => ?_, fun s n s' h => ?_⟩
  · decide
  · obtain ⟨_, l, _, s₂, right, r, s₃, -, -, hright, hr, rfl⟩ := yields_equality rfl h
    obtain ⟨hform, hliteral⟩ := yields_local hright
    rw [if_pos hraw] at hr
    refine ⟨l, right, r, s₂, s₃, hright, by rw [hraw]; rfl, fun hrawAs => ?_⟩
    rcases (rawAs_convert_iff hr).mp hrawAs with hnatural | hstring | hconverts
    · rw [hform] at hnatural
      contradiction
    · rw [hliteral] at hstring
      contradiction
    · rw [hstays] at hconverts
      contradiction
  · obtain ⟨_, l, _, _, _, r, _, -, -, -, -, rfl⟩ := yields_equality rfl h
    exact ⟨l, r, by rw [hboxed]; rfl⟩

end Env

end TreeLowering
