import TreeLowering.Proofs.Shared.Query
import TreeLowering.Shared.Target
set_option autoImplicit false

/-!
# Proofs: lowered code in shared tables

Code whose texts are names stands for the code that it reads as, and it reads as that
wherever the tables have grown to.  Types are compared by their names, so of a type it
is also known that its names are those of texts.
-/

namespace TreeLowering.Shared

open Tables
open Shared.Target (Expr Stmt VarDecl Method Param)

/-! ## Types -/

namespace Target.Ty

mutual

/-- Every name in the type is a name of the table. -/
def Known (t : Interner) : Ty → Prop
  | primitive _ | anyType | erroneous => True
  | cls n | var n => n.index < t.size
  | member o n => o.Known t ∧ n.index < t.size
  | apply b as => b.Known t ∧ AllKnown t as
  | subtypeOf b | supertypeOf b => b.Known t
  | array e => e.Known t

/-- Every name in the types is a name of the table. -/
def AllKnown (t : Interner) : List Ty → Prop
  | [] => True
  | u :: us => u.Known t ∧ AllKnown t us

end

section Same

variable {t : Interner}

theorem name_eq_iff (ht : t.Sound) {n m : Name} (hn : n.index < t.size) (hm : m.index < t.size) :
    n = m ↔ t.lookup n = t.lookup m :=
  ⟨congrArg t.lookup, ht.lookup_inj hn hm⟩

mutual

/-- Types are the same when they read the same. -/
theorem same_iff_read (ht : t.Sound) (a b : Ty) (ha : a.Known t) (hb : b.Known t) :
    a.same b = true ↔ a.read t = b.read t := by
  cases a <;> cases b <;> simp only [same, read, Known, decide_eq_true_eq, Bool.and_eq_true,
    Bool.false_eq_true, reduceCtorEq, TreeLowering.Target.Ty.primitive.injEq,
    TreeLowering.Target.Ty.cls.injEq, TreeLowering.Target.Ty.member.injEq,
    TreeLowering.Target.Ty.apply.injEq, TreeLowering.Target.Ty.subtypeOf.injEq,
    TreeLowering.Target.Ty.supertypeOf.injEq, TreeLowering.Target.Ty.var.injEq,
    TreeLowering.Target.Ty.array.injEq] at *
  case cls.cls => exact name_eq_iff ht ha hb
  case member.member =>
    exact and_congr (same_iff_read ht _ _ ha.1 hb.1) (name_eq_iff ht ha.2 hb.2)
  case apply.apply =>
    exact and_congr (same_iff_read ht _ _ ha.1 hb.1) (sameAll_iff_readAll ht _ _ ha.2 hb.2)
  case subtypeOf.subtypeOf => exact same_iff_read ht _ _ ha hb
  case supertypeOf.supertypeOf => exact same_iff_read ht _ _ ha hb
  case var.var => exact name_eq_iff ht ha hb
  case array.array => exact same_iff_read ht _ _ ha hb

/-- Lists of types are the same when they read the same. -/
theorem sameAll_iff_readAll (ht : t.Sound) (as bs : List Ty) (has : AllKnown t as)
    (hbs : AllKnown t bs) : sameAll as bs = true ↔ readAll t as = readAll t bs := by
  cases as <;> cases bs <;> simp only [sameAll, readAll, AllKnown, Bool.and_eq_true,
    Bool.false_eq_true, reduceCtorEq, List.cons.injEq] at *
  case cons.cons =>
    exact and_congr (same_iff_read ht _ _ has.1 hbs.1) (sameAll_iff_readAll ht _ _ has.2 hbs.2)

end

end Same

theorem readAll_eq_map (t : Interner) (us : List Ty) : readAll t us = us.map (read t) := by
  induction us with
  | nil => rfl
  | cons u us ih => rw [readAll, ih, List.map_cons]

end Target.Ty

namespace Tables

variable {t u : Tables} {n : Name} {x : String}

/-- What is built from names reads as the other thing, wherever the names have grown
to. -/
def Prints {α β : Type} (read : Interner → α → β) (t : Tables) (a : α) (b : β) : Prop :=
  ∀ u, t.Within u → read u.names a = b

/-- The type reads as the other one, and its names are those of texts, wherever the
names have grown to. -/
def PrintsTy (t : Tables) (a : Target.Ty) (b : TreeLowering.Target.Ty) : Prop :=
  ∀ u, t.Within u → a.Known u.names ∧ a.read u.names = b

instance {α β : Type} {read : Interner → α → β} : Stays (Prints read) :=
  ⟨fun h hu v hv => h v (hu.trans hv)⟩

instance : Stays PrintsTy := ⟨fun h hu v hv => h v (hu.trans hv)⟩

theorem PrintsTy.prints {a : Target.Ty} {b : TreeLowering.Target.Ty} (h : PrintsTy t a b) :
    Prints Target.Ty.read t a b :=
  fun u hu => (h u hu).2

theorem HasName.prints (hn : t.HasName n x) : Prints Interner.lookup t n x :=
  fun _ hu => (hn.mono hu).lookup

/-- Several things read as the others, one by one. -/
theorem Each.prints {α β : Type} {read : Interner → α → β} {as : List α} {bs : List β}
    (h : Each (Prints read) t as bs) (hu : t.Within u) : as.map (read u.names) = bs := by
  induction h with
  | nil => rfl
  | cons hab _ ih => exact congrArg₂ List.cons (hab u hu) ih

/-- A thing that may be missing reads as the other one. -/
theorem Maybe.prints {α β : Type} {read : Interner → α → β} {o : Option α} {q : Option β}
    (h : Maybe (Prints read) t o q) (hu : t.Within u) : o.map (read u.names) = q := by
  cases h with
  | none => rfl
  | some hab => exact congrArg some (hab u hu)

namespace PrintsTy

variable {a o : Target.Ty} {b q : TreeLowering.Target.Ty} {as : List Target.Ty}
  {bs : List TreeLowering.Target.Ty}

theorem all (h : Each PrintsTy t as bs) (hu : t.Within u) :
    Target.Ty.AllKnown u.names as ∧ Target.Ty.readAll u.names as = bs := by
  induction h with
  | nil => exact ⟨trivial, rfl⟩
  | cons hab _ ih =>
    obtain ⟨hknown, hread⟩ := hab u hu
    exact ⟨⟨hknown, ih.1⟩, congrArg₂ List.cons hread ih.2⟩

theorem prints_all (h : Each PrintsTy t as bs) (hu : t.Within u) :
    as.map (Target.Ty.read u.names) = bs :=
  (Target.Ty.readAll_eq_map _ _).symm.trans (all h hu).2

theorem primitive (p : TreeLowering.Target.Primitive) : PrintsTy t (.primitive p) (.primitive p) :=
  fun _ _ => ⟨trivial, rfl⟩

theorem anyType : PrintsTy t .anyType .anyType := fun _ _ => ⟨trivial, rfl⟩

theorem erroneous : PrintsTy t .erroneous .erroneous := fun _ _ => ⟨trivial, rfl⟩

theorem cls (hn : t.HasName n x) : PrintsTy t (.cls n) (.cls x) :=
  fun _ hu => ⟨(hn.mono hu).lt, congrArg _ (hn.mono hu).lookup⟩

theorem var (hn : t.HasName n x) : PrintsTy t (.var n) (.var x) :=
  fun _ hu => ⟨(hn.mono hu).lt, congrArg _ (hn.mono hu).lookup⟩

theorem member (h : PrintsTy t o q) (hn : t.HasName n x) : PrintsTy t (.member o n) (.member q x) :=
  fun u hu => ⟨⟨(h u hu).1, (hn.mono hu).lt⟩, congrArg₂ _ (h u hu).2 (hn.mono hu).lookup⟩

theorem subtypeOf (h : PrintsTy t a b) : PrintsTy t (.subtypeOf a) (.subtypeOf b) :=
  fun u hu => ⟨(h u hu).1, congrArg _ (h u hu).2⟩

theorem supertypeOf (h : PrintsTy t a b) : PrintsTy t (.supertypeOf a) (.supertypeOf b) :=
  fun u hu => ⟨(h u hu).1, congrArg _ (h u hu).2⟩

theorem array (h : PrintsTy t a b) : PrintsTy t (.array a) (.array b) :=
  fun u hu => ⟨(h u hu).1, congrArg _ (h u hu).2⟩

theorem applied (h : PrintsTy t a b) (has : Each PrintsTy t as bs) :
    PrintsTy t (.applied a as) (.applied b bs) := by
  cases has with
  | nil => exact h
  | cons hc hcs =>
    intro u hu
    obtain ⟨hknown, hread⟩ := all (.cons hc hcs) hu
    exact ⟨⟨(h u hu).1, hknown⟩, congrArg₂ _ (h u hu).2 hread⟩

/-- Types are told apart as the ones that they read as. -/
theorem same_eq (ha : PrintsTy t a b) (ho : PrintsTy t o q) (ht : t.Sound) :
    a.same o = decide (b = q) := by
  obtain ⟨hknown, hread⟩ := ha t (.refl t)
  obtain ⟨hknown', hread'⟩ := ho t (.refl t)
  rw [Bool.eq_iff_iff, decide_eq_true_eq, ← hread, ← hread']
  exact Target.Ty.same_iff_read ht.names a o hknown hknown'

end PrintsTy

end Tables

/-! ## Lists of code -/

namespace Target

theorem Expr.readAll_eq_map (t : Interner) (es : List Expr) :
    Expr.readAll t es = es.map (Expr.read t) := by
  induction es with
  | nil => rw [Expr.readAll, List.map_nil]
  | cons e es ih => rw [Expr.readAll, ih, List.map_cons]

theorem Expr.readAny_eq_map (t : Interner) (e : Option Expr) :
    Expr.readAny t e = e.map (Expr.read t) := by
  cases e <;> rw [Expr.readAny] <;> rfl

theorem Stmt.readAll_eq_map (t : Interner) (ss : List Stmt) :
    Stmt.readAll t ss = ss.map (Stmt.read t) := by
  induction ss with
  | nil => rw [Stmt.readAll, List.map_nil]
  | cons s ss ih => rw [Stmt.readAll, ih, List.map_cons]

theorem Stmt.readAny_eq_map (t : Interner) (ss : Option (List Stmt)) :
    Stmt.readAny t ss = ss.map (List.map (Stmt.read t)) := by
  cases ss with
  | none => rw [Stmt.readAny, Option.map_none]
  | some ss => rw [Stmt.readAny, Stmt.readAll_eq_map, Option.map_some]

theorem VarDecl.readAll_eq_map (t : Interner) (vs : List VarDecl) :
    VarDecl.readAll t vs = vs.map (VarDecl.read t) := by
  induction vs with
  | nil => rw [VarDecl.readAll, List.map_nil]
  | cons v vs ih => rw [VarDecl.readAll, ih, List.map_cons]

theorem Method.readAll_eq_map (t : Interner) (ms : List Method) :
    Method.readAll t ms = ms.map (Method.read t) := by
  induction ms with
  | nil => rw [Method.readAll, List.map_nil]
  | cons m ms ih => rw [Method.readAll, ih, List.map_cons]

theorem Method.readAny_eq_map (t : Interner) (ms : Option (List Method)) :
    Method.readAny t ms = ms.map (List.map (Method.read t)) := by
  cases ms with
  | none => rw [Method.readAny, Option.map_none]
  | some ms => rw [Method.readAny, Method.readAll_eq_map, Option.map_some]

/-! ## What is asked about code -/

theorem Expr.isTrue_read (t : Interner) (e : Expr) : (e.read t).isTrue = e.isTrue := by
  cases e with
  | lit l =>
    rw [Expr.read]
    cases l with
    | bool b => cases b <;> rfl
    | null | int | long | double | char | string => rfl
  | _ => rw [Expr.read]; rfl

theorem Expr.isStringLiteral_read (t : Interner) (e : Expr) :
    (e.read t).isStringLiteral = e.isStringLiteral := by
  cases e with
  | lit l =>
    rw [Expr.read]
    cases l <;> rfl
  | _ => rw [Expr.read]; rfl

mutual

theorem Stmt.breaksOut_read (t : Interner) : ∀ s : Stmt, (s.read t).breaksOut = s.breaksOut
  | .declare _ | .exec _ | .whileLoop _ _ | .forLoop _ _ _ _ | .leave | .ret _ => rfl
  | .branch _ yes no => by
    rw [Stmt.read, TreeLowering.Target.Stmt.breaksOut, Stmt.anyBreaksOut_read t yes,
      Stmt.elseBreaksOut_read t no]
    rfl
  | .block body => Stmt.anyBreaksOut_read t body

theorem Stmt.anyBreaksOut_read (t : Interner) : ∀ ss : List Stmt,
    TreeLowering.Target.Stmt.anyBreaksOut (Stmt.readAll t ss) = Stmt.anyBreaksOut ss
  | [] => rfl
  | s :: ss => by
    rw [Stmt.readAll, TreeLowering.Target.Stmt.anyBreaksOut, Stmt.breaksOut_read t s,
      Stmt.anyBreaksOut_read t ss]
    rfl

theorem Stmt.elseBreaksOut_read (t : Interner) : ∀ ss : Option (List Stmt),
    TreeLowering.Target.Stmt.elseBreaksOut (Stmt.readAny t ss) = Stmt.elseBreaksOut ss
  | none => rfl
  | some ss => Stmt.anyBreaksOut_read t ss

end

mutual

theorem Stmt.completes_read (t : Interner) : ∀ s : Stmt, (s.read t).completes = s.completes
  | .declare _ | .exec _ | .leave | .ret _ => rfl
  | .branch _ yes no => by
    rw [Stmt.read, TreeLowering.Target.Stmt.completes, Stmt.allComplete_read t yes,
      Stmt.elseCompletes_read t no]
    rfl
  | .whileLoop test body => by
    rw [Stmt.read, TreeLowering.Target.Stmt.completes, Expr.isTrue_read,
      Stmt.anyBreaksOut_read t body]
    rfl
  | .forLoop _ test _ body => by
    rw [Stmt.read, TreeLowering.Target.Stmt.completes, Expr.isTrue_read,
      Stmt.anyBreaksOut_read t body]
    rfl
  | .block body => Stmt.allComplete_read t body

/-- Control passes through statements as through those that they read as. -/
theorem Stmt.allComplete_read (t : Interner) : ∀ ss : List Stmt,
    TreeLowering.Target.Stmt.allComplete (Stmt.readAll t ss) = Stmt.allComplete ss
  | [] => rfl
  | s :: ss => by
    rw [Stmt.readAll, TreeLowering.Target.Stmt.allComplete, Stmt.completes_read t s,
      Stmt.allComplete_read t ss]
    rfl

theorem Stmt.elseCompletes_read (t : Interner) : ∀ ss : Option (List Stmt),
    TreeLowering.Target.Stmt.elseCompletes (Stmt.readAny t ss) = Stmt.elseCompletes ss
  | none => rfl
  | some ss => Stmt.allComplete_read t ss

end

end Target

namespace Tables

variable {t u : Tables} {n : Name} {x : String} {e e₁ e₂ e₃ : Expr}
  {E E₁ E₂ E₃ : TreeLowering.Target.Expr} {c : Target.Ty} {C : TreeLowering.Target.Ty}
  {us : List Target.Ty} {Us : List TreeLowering.Target.Ty} {es : List Expr}
  {Es : List TreeLowering.Target.Expr} {ss : List Stmt} {Ss : List TreeLowering.Target.Stmt}

/-- The expression reads as the other one. -/
abbrev PrintsExpr (t : Tables) (e : Expr) (E : TreeLowering.Target.Expr) : Prop :=
  Prints Expr.read t e E

/-- The statement reads as the other one. -/
abbrev PrintsStmt (t : Tables) (s : Stmt) (S : TreeLowering.Target.Stmt) : Prop :=
  Prints Stmt.read t s S

/-- The method reads as the other one. -/
abbrev PrintsMethod (t : Tables) (m : Method) (M : TreeLowering.Target.Method) : Prop :=
  Prints Method.read t m M

/-! ## Expressions -/

namespace PrintsExpr

theorem ident (hn : t.HasName n x) : t.PrintsExpr (.ident n) (.ident x) :=
  fun u hu => congrArg _ (hn.prints u hu)

theorem lit {l : Target.Literal} {L : TreeLowering.Target.Literal}
    (h : Prints Target.Literal.read t l L) : t.PrintsExpr (.lit l) (.lit L) :=
  fun u hu => congrArg _ (h u hu)

theorem null : t.PrintsExpr .null .null := fun _ _ => rfl

theorem bool (b : Bool) : t.PrintsExpr (.bool b) (.bool b) := fun _ _ => rfl

theorem typeRef (h : t.PrintsTy c C) : t.PrintsExpr (.typeRef c) (.typeRef C) :=
  fun u hu => congrArg _ (h.prints u hu)

theorem call {o : Option Expr} {O : Option TreeLowering.Target.Expr}
    (ho : Maybe PrintsExpr t o O) (hus : Each PrintsTy t us Us) (hn : t.HasName n x)
    (hes : Each PrintsExpr t es Es) : t.PrintsExpr (.call o us n es) (.call O Us x Es) := by
  intro u hu
  rw [Expr.read, Target.Expr.readAny_eq_map, Target.Expr.readAll_eq_map, ho.prints hu,
    PrintsTy.prints_all hus hu, hn.prints u hu, hes.prints hu]

theorem callOn (h : t.PrintsExpr e E) (hn : t.HasName n x) (hes : Each PrintsExpr t es Es) :
    t.PrintsExpr (.callOn e n es) (.callOn E x Es) :=
  call (.some h) .nil hn hes

theorem callLocal (hn : t.HasName n x) (hes : Each PrintsExpr t es Es) :
    t.PrintsExpr (.callLocal n es) (.callLocal x Es) :=
  call .none .nil hn hes

theorem callStatic (hc : t.PrintsTy c C) (hus : Each PrintsTy t us Us) (hn : t.HasName n x)
    (hes : Each PrintsExpr t es Es) :
    t.PrintsExpr (.callStatic c us n es) (.callStatic C Us x Es) :=
  call (.some (typeRef hc)) hus hn hes

theorem create {ms : Option (List Method)} {Ms : Option (List TreeLowering.Target.Method)}
    (hc : t.PrintsTy c C) (hes : Each PrintsExpr t es Es) (hms : Maybe (Each PrintsMethod) t ms Ms) :
    t.PrintsExpr (.create c es ms) (.create C Es Ms) := by
  intro u hu
  have hbody : ms.map (List.map (Method.read u.names)) = Ms := by
    cases hms with
    | none => rfl
    | some hms => exact congrArg some (Each.prints hms hu)
  rw [Expr.read, Target.Expr.readAll_eq_map, Target.Method.readAny_eq_map, hc.prints u hu,
    hes.prints hu, hbody]

theorem cast (hc : t.PrintsTy c C) (h : t.PrintsExpr e E) : t.PrintsExpr (.cast c e) (.cast C E) :=
  fun u hu => congrArg₂ _ (hc.prints u hu) (h u hu)

theorem instanceOf (h : t.PrintsExpr e E) (hc : t.PrintsTy c C) :
    t.PrintsExpr (.instanceOf e c) (.instanceOf E C) :=
  fun u hu => congrArg₂ _ (h u hu) (hc.prints u hu)

theorem binary (op : TreeLowering.Target.BinaryOp) (h₁ : t.PrintsExpr e₁ E₁)
    (h₂ : t.PrintsExpr e₂ E₂) : t.PrintsExpr (.binary op e₁ e₂) (.binary op E₁ E₂) :=
  fun u hu => congrArg₂ _ (h₁ u hu) (h₂ u hu)

theorem not (h : t.PrintsExpr e E) : t.PrintsExpr (.not e) (.not E) :=
  fun u hu => congrArg _ (h u hu)

theorem assign (h₁ : t.PrintsExpr e₁ E₁) (h₂ : t.PrintsExpr e₂ E₂) :
    t.PrintsExpr (.assign e₁ e₂) (.assign E₁ E₂) :=
  fun u hu => congrArg₂ _ (h₁ u hu) (h₂ u hu)

theorem index (h₁ : t.PrintsExpr e₁ E₁) (h₂ : t.PrintsExpr e₂ E₂) :
    t.PrintsExpr (.index e₁ e₂) (.index E₁ E₂) :=
  fun u hu => congrArg₂ _ (h₁ u hu) (h₂ u hu)

theorem cond (h₁ : t.PrintsExpr e₁ E₁) (h₂ : t.PrintsExpr e₂ E₂) (h₃ : t.PrintsExpr e₃ E₃) :
    t.PrintsExpr (.cond e₁ e₂ e₃) (.cond E₁ E₂ E₃) := by
  intro u hu
  rw [Expr.read, h₁ u hu, h₂ u hu, h₃ u hu]

theorem letIn (hss : Each PrintsStmt t ss Ss) (h : t.PrintsExpr e E) :
    t.PrintsExpr (.letIn ss e) (.letIn Ss E) := by
  intro u hu
  rw [Expr.read, Target.Stmt.readAll_eq_map, hss.prints hu, h u hu]

theorem isStringLiteral_eq (h : t.PrintsExpr e E) : e.isStringLiteral = E.isStringLiteral := by
  rw [← h t (.refl t), Target.Expr.isStringLiteral_read]

end PrintsExpr

/-! ## Statements -/

/-- The variable declaration reads as the other one. -/
abbrev PrintsVar (t : Tables) (v : VarDecl) (V : TreeLowering.Target.VarDecl) : Prop :=
  Prints VarDecl.read t v V

theorem PrintsVar.mk {o : Option Expr} {O : Option TreeLowering.Target.Expr} (isFinal : Bool)
    (hn : t.HasName n x) (hc : t.PrintsTy c C) (ho : Maybe PrintsExpr t o O) :
    t.PrintsVar (.mk isFinal n c o) (.mk isFinal x C O) := by
  intro u hu
  rw [VarDecl.read, Target.Expr.readAny_eq_map, hn.prints u hu, hc.prints u hu, ho.prints hu]

namespace PrintsStmt

theorem declare {v : VarDecl} {V : TreeLowering.Target.VarDecl} (h : t.PrintsVar v V) :
    t.PrintsStmt (.declare v) (.declare V) :=
  fun u hu => congrArg _ (h u hu)

theorem declareFinal (hn : t.HasName n x) (hc : t.PrintsTy c C) (h : t.PrintsExpr e E) :
    t.PrintsStmt (.declareFinal n c e) (.declareFinal x C E) :=
  declare (.mk true hn hc (.some h))

theorem exec (h : t.PrintsExpr e E) : t.PrintsStmt (.exec e) (.exec E) :=
  fun u hu => congrArg _ (h u hu)

theorem leave : t.PrintsStmt .leave .leave := fun _ _ => rfl

theorem ret {o : Option Expr} {O : Option TreeLowering.Target.Expr} (h : Maybe PrintsExpr t o O) :
    t.PrintsStmt (.ret o) (.ret O) := by
  intro u hu
  rw [Stmt.read, Target.Expr.readAny_eq_map, h.prints hu]

theorem block (h : Each PrintsStmt t ss Ss) : t.PrintsStmt (.block ss) (.block Ss) := by
  intro u hu
  rw [Stmt.read, Target.Stmt.readAll_eq_map, h.prints hu]

theorem branch {no : Option (List Stmt)} {No : Option (List TreeLowering.Target.Stmt)}
    (h : t.PrintsExpr e E) (hss : Each PrintsStmt t ss Ss) (hno : Maybe (Each PrintsStmt) t no No) :
    t.PrintsStmt (.branch e ss no) (.branch E Ss No) := by
  intro u hu
  have hother : no.map (List.map (Stmt.read u.names)) = No := by
    cases hno with
    | none => rfl
    | some hno => exact congrArg some (Each.prints hno hu)
  rw [Stmt.read, Target.Stmt.readAll_eq_map, Target.Stmt.readAny_eq_map, h u hu, hss.prints hu,
    hother]

theorem whileLoop (h : t.PrintsExpr e E) (hss : Each PrintsStmt t ss Ss) :
    t.PrintsStmt (.whileLoop e ss) (.whileLoop E Ss) := by
  intro u hu
  rw [Stmt.read, Target.Stmt.readAll_eq_map, h u hu, hss.prints hu]

theorem forLoop {vs : List VarDecl} {Vs : List TreeLowering.Target.VarDecl}
    (hvs : Each PrintsVar t vs Vs) (h : t.PrintsExpr e E) (hes : Each PrintsExpr t es Es)
    (hss : Each PrintsStmt t ss Ss) : t.PrintsStmt (.forLoop vs e es ss) (.forLoop Vs E Es Ss) := by
  intro u hu
  rw [Stmt.read, Target.VarDecl.readAll_eq_map, Target.Expr.readAll_eq_map,
    Target.Stmt.readAll_eq_map, hvs.prints hu, h u hu, hes.prints hu, hss.prints hu]

theorem allComplete_eq (h : Each PrintsStmt t ss Ss) :
    Stmt.allComplete ss = TreeLowering.Target.Stmt.allComplete Ss := by
  rw [← h.prints (.refl t), ← Target.Stmt.readAll_eq_map, Target.Stmt.allComplete_read]

end PrintsStmt

/-! ## Methods -/

theorem PrintsParam.mk (isFinal varargs : Bool) (hn : t.HasName n x) (hc : t.PrintsTy c C) :
    Prints Param.read t ⟨isFinal, varargs, n, c⟩ ⟨isFinal, varargs, x, C⟩ := by
  intro u hu
  rw [Param.read, hn.prints u hu, hc.prints u hu]

theorem PrintsTypeParam.mk (hn : t.HasName n x) (hus : Each PrintsTy t us Us) :
    Prints Target.TypeParam.read t ⟨n, us⟩ ⟨x, Us⟩ := by
  intro u hu
  rw [Target.TypeParam.read, hn.prints u hu, PrintsTy.prints_all hus hu]

theorem PrintsMethod.mk {qs : List Target.TypeParam} {Qs : List TreeLowering.Target.TypeParam}
    {ps : List Param} {Ps : List TreeLowering.Target.Param}
    (modifiers : TreeLowering.Target.Modifiers) (hqs : Each (Prints Target.TypeParam.read) t qs Qs)
    (hc : t.PrintsTy c C) (hn : t.HasName n x) (hps : Each (Prints Param.read) t ps Ps)
    (hss : Each PrintsStmt t ss Ss) :
    t.PrintsMethod (.mk modifiers qs c n ps (some ss)) (.mk modifiers Qs C x Ps (some Ss)) := by
  intro u hu
  rw [Method.read, Target.Stmt.readAny_eq_map, Option.map_some, hqs.prints hu, hc.prints u hu,
    hn.prints u hu, hps.prints hu, hss.prints hu]

end Tables

end TreeLowering.Shared
