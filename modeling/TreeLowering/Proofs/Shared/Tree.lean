import TreeLowering.Proofs.Shared.Model
import TreeLowering.Shared.Tree
set_option autoImplicit false

/-!
# Proofs: trees in shared tables

A tree stands for another when they have one form, and each position and name of the
one stands for the type or text of the other.
-/

namespace TreeLowering.Shared.Tables

open TreeLowering.Tree (Operator)

variable {t u : Tables}

/-- What is known of the expression, in the tables. -/
structure HasInfo (t : Tables) (i : Tree.Info) (I : TreeLowering.Tree.Info) : Prop where
  ty : t.HasTy i.ty I.ty
  raw : i.raw = I.raw
  span : i.span = I.span

instance : Stays HasInfo := ⟨fun h hu => ⟨h.ty.mono hu, h.raw, h.span⟩⟩

/-- The expression in the tables. -/
inductive HasExpr (t : Tables) : Tree.Expr → TreeLowering.Tree.Expr → Prop where
  | ident {i : Tree.Info} {I : TreeLowering.Tree.Info} {n : Name} {x : String}
      (hinfo : HasInfo t i I) (hn : HasName t n x) : HasExpr t (.ident i n) (.ident I x)
  | integer {i : Tree.Info} {I : TreeLowering.Tree.Info} {value : Int} (hinfo : HasInfo t i I) :
      HasExpr t (.integer i value) (.integer I value)
  | float {i : Tree.Info} {I : TreeLowering.Tree.Info} {bits : UInt64} (hinfo : HasInfo t i I) :
      HasExpr t (.float i bits) (.float I bits)
  | string {i : Tree.Info} {I : TreeLowering.Tree.Info} {n : Name} {x : String}
      (hinfo : HasInfo t i I) (hn : HasName t n x) : HasExpr t (.string i n) (.string I x)
  | character {i : Tree.Info} {I : TreeLowering.Tree.Info} {value : Char}
      (hinfo : HasInfo t i I) : HasExpr t (.character i value) (.character I value)
  | boolean {i : Tree.Info} {I : TreeLowering.Tree.Info} {value : Bool}
      (hinfo : HasInfo t i I) : HasExpr t (.boolean i value) (.boolean I value)
  | absent {i : Tree.Info} {I : TreeLowering.Tree.Info} (hinfo : HasInfo t i I) :
      HasExpr t (.absent i) (.absent I)
  | member {i : Tree.Info} {I : TreeLowering.Tree.Info} {e : Tree.Expr}
      {E : TreeLowering.Tree.Expr} {n : Name} {x : String} (hinfo : HasInfo t i I)
      (he : HasExpr t e E) (hn : HasName t n x) : HasExpr t (.member i e n) (.member I E x)
  | call {i : Tree.Info} {I : TreeLowering.Tree.Info} {o : Option Tree.Expr}
      {O : Option TreeLowering.Tree.Expr} {d : DeclId} {es : List Tree.Expr}
      {Es : List TreeLowering.Tree.Expr} (hinfo : HasInfo t i I) (ho : Option.Rel (HasExpr t) o O)
      (hes : List.Forall₂ (HasExpr t) es Es) : HasExpr t (.call i o d es) (.call I O d Es)
  | binary {i : Tree.Info} {I : TreeLowering.Tree.Info} {op : Operator} {lhs rhs : Tree.Expr}
      {Lhs Rhs : TreeLowering.Tree.Expr} (hinfo : HasInfo t i I) (hlhs : HasExpr t lhs Lhs)
      (hrhs : HasExpr t rhs Rhs) : HasExpr t (.binary i op lhs rhs) (.binary I op Lhs Rhs)
  | not {i : Tree.Info} {I : TreeLowering.Tree.Info} {e : Tree.Expr} {E : TreeLowering.Tree.Expr}
      (hinfo : HasInfo t i I) (he : HasExpr t e E) : HasExpr t (.not i e) (.not I E)
  | sequence {i : Tree.Info} {I : TreeLowering.Tree.Info} {es : List Tree.Expr}
      {Es : List TreeLowering.Tree.Expr} (hinfo : HasInfo t i I)
      (hes : List.Forall₂ (HasExpr t) es Es) : HasExpr t (.sequence i es) (.sequence I Es)
  | functionRef {i : Tree.Info} {I : TreeLowering.Tree.Info} {d : DeclId}
      (hinfo : HasInfo t i I) : HasExpr t (.functionRef i d) (.functionRef I d)

/-- The variable in the tables. -/
structure HasVariable (t : Tables) (v : Tree.Variable) (V : TreeLowering.Tree.Variable) :
    Prop where
  name : t.HasName v.name V.name
  ty : t.HasTy v.ty V.ty

/-- The condition in the tables. -/
inductive HasCondition (t : Tables) : Tree.Condition → TreeLowering.Tree.Condition → Prop where
  | test {e : Tree.Expr} {E : TreeLowering.Tree.Expr} (he : t.HasExpr e E) :
      HasCondition t (.test e) (.test E)
  | present {e : Tree.Expr} {E : TreeLowering.Tree.Expr} (he : t.HasExpr e E) :
      HasCondition t (.present e) (.present E)
  | presentAs {v : Tree.Variable} {V : TreeLowering.Tree.Variable} {e : Tree.Expr}
      {E : TreeLowering.Tree.Expr} (hv : t.HasVariable v V) (he : t.HasExpr e E) :
      HasCondition t (.presentAs v e) (.presentAs V E)
  | isOf {n : Name} {x : String} {i : TypeIdx} {τ : Ty} {e : Tree.Expr}
      {E : TreeLowering.Tree.Expr} (hn : t.HasName n x) (hi : t.HasTy i τ)
      (he : t.HasExpr e E) : HasCondition t (.isOf n i e) (.isOf x τ E)
  | nonempty {v : Tree.Variable} {V : TreeLowering.Tree.Variable} {e : Tree.Expr}
      {E : TreeLowering.Tree.Expr} (hv : t.HasVariable v V) (he : t.HasExpr e E) :
      HasCondition t (.nonempty v e) (.nonempty V E)

/-- What the loop binds, in the tables. -/
inductive HasBinding (t : Tables) : Tree.LoopBinding → TreeLowering.Tree.LoopBinding → Prop where
  | value {v : Tree.Variable} {V : TreeLowering.Tree.Variable} (hv : t.HasVariable v V) :
      HasBinding t (.value v) (.value V)
  | keyItem {k v : Tree.Variable} {K V : TreeLowering.Tree.Variable} (hk : t.HasVariable k K)
      (hv : t.HasVariable v V) : HasBinding t (.keyItem k v) (.keyItem K V)

/-- The statement in the tables. -/
inductive HasStmt (t : Tables) : Tree.Stmt → TreeLowering.Tree.Stmt → Prop where
  | declare {span : Span} {v : Tree.Variable} {V : TreeLowering.Tree.Variable}
      {o : Option Tree.Expr} {O : Option TreeLowering.Tree.Expr} {isVariable : Bool}
      (hv : t.HasVariable v V) (ho : Maybe HasExpr t o O) :
      HasStmt t (.declare span v o isVariable) (.declare span V O isVariable)
  | assign {span : Span} {n : Name} {x : String} {e : Tree.Expr} {E : TreeLowering.Tree.Expr}
      (hn : t.HasName n x) (he : t.HasExpr e E) : HasStmt t (.assign span n e) (.assign span x E)
  | eval {span : Span} {e : Tree.Expr} {E : TreeLowering.Tree.Expr} (he : t.HasExpr e E) :
      HasStmt t (.eval span e) (.eval span E)
  | ret {span : Span} {o : Option Tree.Expr} {O : Option TreeLowering.Tree.Expr}
      (ho : Maybe HasExpr t o O) : HasStmt t (.ret span o) (.ret span O)
  | leave {span : Span} : HasStmt t (.leave span) (.leave span)
  | branch {span : Span} {c : Tree.Condition} {C : TreeLowering.Tree.Condition}
      {yes : List Tree.Stmt} {Yes : List TreeLowering.Tree.Stmt} {no : Option (List Tree.Stmt)}
      {No : Option (List TreeLowering.Tree.Stmt)} (hc : t.HasCondition c C)
      (hyes : List.Forall₂ (HasStmt t) yes Yes)
      (hno : Option.Rel (List.Forall₂ (HasStmt t)) no No) :
      HasStmt t (.branch span c yes no) (.branch span C Yes No)
  | loop {span : Span} {c : Tree.Condition} {C : TreeLowering.Tree.Condition}
      {body : List Tree.Stmt} {Body : List TreeLowering.Tree.Stmt} (hc : t.HasCondition c C)
      (hbody : List.Forall₂ (HasStmt t) body Body) :
      HasStmt t (.loop span c body) (.loop span C Body)
  | each {span : Span} {b : Tree.LoopBinding} {B : TreeLowering.Tree.LoopBinding} {e : Tree.Expr}
      {E : TreeLowering.Tree.Expr} {body : List Tree.Stmt} {Body : List TreeLowering.Tree.Stmt}
      {no : Option (List Tree.Stmt)} {No : Option (List TreeLowering.Tree.Stmt)}
      (hb : t.HasBinding b B) (he : t.HasExpr e E) (hbody : List.Forall₂ (HasStmt t) body Body)
      (hno : Option.Rel (List.Forall₂ (HasStmt t)) no No) :
      HasStmt t (.each span b e body no) (.each span B E Body No)
  | block {span : Span} {body : List Tree.Stmt} {Body : List TreeLowering.Tree.Stmt}
      (hbody : List.Forall₂ (HasStmt t) body Body) :
      HasStmt t (.block span body) (.block span Body)

/-- The function in the tables. -/
structure HasFunction (t : Tables) (f : Tree.Function) (F : TreeLowering.Tree.Function) :
    Prop where
  decl : f.decl = F.decl
  body : Each HasStmt t f.body F.body
  span : f.span = F.span

/-! ## Growing -/

theorem HasExpr.info {e : Tree.Expr} {E : TreeLowering.Tree.Expr} (h : t.HasExpr e E) :
    t.HasInfo e.info E.info := by
  cases h <;> assumption

theorem HasExpr.ty {e : Tree.Expr} {E : TreeLowering.Tree.Expr} (h : t.HasExpr e E) :
    t.HasTy e.ty E.ty :=
  h.info.ty

mutual

theorem HasExpr.mono (hu : t.Within u) : ∀ (e : Tree.Expr) {E : TreeLowering.Tree.Expr},
    t.HasExpr e E → u.HasExpr e E
  | .ident .., _, .ident hinfo hn => .ident (Stays.mono hinfo hu) (hn.mono hu)
  | .integer .., _, .integer hinfo => .integer (Stays.mono hinfo hu)
  | .float .., _, .float hinfo => .float (Stays.mono hinfo hu)
  | .string .., _, .string hinfo hn => .string (Stays.mono hinfo hu) (hn.mono hu)
  | .character .., _, .character hinfo => .character (Stays.mono hinfo hu)
  | .boolean .., _, .boolean hinfo => .boolean (Stays.mono hinfo hu)
  | .absent _, _, .absent hinfo => .absent (Stays.mono hinfo hu)
  | .member _ e _, _, .member hinfo he hn =>
    .member (Stays.mono hinfo hu) (HasExpr.mono hu e he) (hn.mono hu)
  | .call _ o _ es, _, .call hinfo ho hes =>
    .call (Stays.mono hinfo hu) (HasExpr.mono? hu o ho) (HasExpr.monoAll hu es hes)
  | .binary _ _ lhs rhs, _, .binary hinfo hlhs hrhs =>
    .binary (Stays.mono hinfo hu) (HasExpr.mono hu lhs hlhs) (HasExpr.mono hu rhs hrhs)
  | .not _ e, _, .not hinfo he => .not (Stays.mono hinfo hu) (HasExpr.mono hu e he)
  | .sequence _ es, _, .sequence hinfo hes =>
    .sequence (Stays.mono hinfo hu) (HasExpr.monoAll hu es hes)
  | .functionRef .., _, .functionRef hinfo => .functionRef (Stays.mono hinfo hu)

theorem HasExpr.monoAll (hu : t.Within u) :
    ∀ (es : List Tree.Expr) {Es : List TreeLowering.Tree.Expr},
      Each HasExpr t es Es → Each HasExpr u es Es
  | [], _, .nil => .nil
  | e :: es, _, .cons he hes => .cons (HasExpr.mono hu e he) (HasExpr.monoAll hu es hes)

theorem HasExpr.mono? (hu : t.Within u) :
    ∀ (o : Option Tree.Expr) {O : Option TreeLowering.Tree.Expr},
      Maybe HasExpr t o O → Maybe HasExpr u o O
  | none, _, .none => .none
  | some e, _, .some he => .some (HasExpr.mono hu e he)

end

instance : Stays HasExpr := ⟨fun h hu => HasExpr.mono hu _ h⟩

instance : Stays HasVariable := ⟨fun h hu => ⟨h.name.mono hu, h.ty.mono hu⟩⟩

instance : Stays HasCondition where
  mono h hu := by
    cases h with
    | test he => exact .test (Stays.mono he hu)
    | present he => exact .present (Stays.mono he hu)
    | presentAs hv he => exact .presentAs (Stays.mono hv hu) (Stays.mono he hu)
    | isOf hn hi he => exact .isOf (hn.mono hu) (hi.mono hu) (Stays.mono he hu)
    | nonempty hv he => exact .nonempty (Stays.mono hv hu) (Stays.mono he hu)

instance : Stays HasBinding where
  mono h hu := by
    cases h with
    | value hv => exact .value (Stays.mono hv hu)
    | keyItem hk hv => exact .keyItem (Stays.mono hk hu) (Stays.mono hv hu)

mutual

theorem HasStmt.mono (hu : t.Within u) : ∀ (s : Tree.Stmt) {S : TreeLowering.Tree.Stmt},
    t.HasStmt s S → u.HasStmt s S
  | .declare .., _, .declare hv ho => .declare (Stays.mono hv hu) (Stays.mono ho hu)
  | .assign .., _, .assign hn he => .assign (hn.mono hu) (Stays.mono he hu)
  | .eval .., _, .eval he => .eval (Stays.mono he hu)
  | .ret .., _, .ret ho => .ret (Stays.mono ho hu)
  | .leave _, _, .leave => .leave
  | .branch _ _ yes no, _, .branch hc hyes hno =>
    .branch (Stays.mono hc hu) (HasStmt.monoAll hu yes hyes) (HasStmt.monoAny hu no hno)
  | .loop _ _ body, _, .loop hc hbody =>
    .loop (Stays.mono hc hu) (HasStmt.monoAll hu body hbody)
  | .each _ _ _ body no, _, .each hb he hbody hno =>
    .each (Stays.mono hb hu) (Stays.mono he hu) (HasStmt.monoAll hu body hbody)
      (HasStmt.monoAny hu no hno)
  | .block _ body, _, .block hbody => .block (HasStmt.monoAll hu body hbody)

theorem HasStmt.monoAll (hu : t.Within u) :
    ∀ (ss : List Tree.Stmt) {Ss : List TreeLowering.Tree.Stmt},
      Each HasStmt t ss Ss → Each HasStmt u ss Ss
  | [], _, .nil => .nil
  | s :: ss, _, .cons hs hss => .cons (HasStmt.mono hu s hs) (HasStmt.monoAll hu ss hss)

theorem HasStmt.monoAny (hu : t.Within u) :
    ∀ (o : Option (List Tree.Stmt)) {O : Option (List TreeLowering.Tree.Stmt)},
      Maybe (Each HasStmt) t o O → Maybe (Each HasStmt) u o O
  | none, _, .none => .none
  | some ss, _, .some hss => .some (HasStmt.monoAll hu ss hss)

end

instance : Stays HasStmt := ⟨fun h hu => HasStmt.mono hu _ h⟩

instance : Stays HasFunction := ⟨fun h hu => ⟨h.decl, Stays.mono h.body hu, h.span⟩⟩

end TreeLowering.Shared.Tables
