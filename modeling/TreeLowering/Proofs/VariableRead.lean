import TreeLowering.Proofs.SyntheticName
import TreeLowering.Proofs.Yield
import TreeLowering.Lowering.Method
set_option autoImplicit false

/-!
# Proofs: what code reads

A variable is read where it stands as an expression, and an element of an array
where the array stands in a variable and the position in a literal.  The reads
of code are listed in the order in which they are written down, each as often as
it occurs, so that an argument is used once when its read is listed once.

The conversions between raw and boxed values read what they convert, and besides
it at most a synthetic name of their own.
-/

namespace TreeLowering

/-! ## Reads -/

namespace Target

/-- A variable, and the position of an element where one of an array is read. -/
abbrev Read := String × Option Literal

/-- What an access to an array reads: an element, or whatever is inside. -/
def elementRead : Expr → Expr → List Read → List Read
  | .ident x, .lit position, _ => [(x, some position)]
  | _, _, inside => inside

mutual

/-- What the expression reads. -/
@[simp]
def Expr.reads : Expr → List Read
  | .ident x => [(x, none)]
  | .lit _ | .typeRef _ | .classLit _ => []
  | .select e _ | .createArray _ e | .cast _ e | .instanceOf e _ | .not e => e.reads
  | .call target _ _ args => valueReads target ++ exprsRead args
  | .create _ args body => exprsRead args ++ classReads body
  | .binary _ lhs rhs => lhs.reads ++ rhs.reads
  | .assign target value => target.reads ++ value.reads
  | .index array position => elementRead array position (array.reads ++ position.reads)
  | .cond test yes no => test.reads ++ yes.reads ++ no.reads
  | .letIn stmts value => stmtsRead stmts ++ value.reads

/-- What the expression reads, if there is one. -/
@[simp]
def valueReads : Option Expr → List Read
  | none => []
  | some e => e.reads

/-- What the expressions read. -/
@[simp]
def exprsRead : List Expr → List Read
  | [] => []
  | e :: es => e.reads ++ exprsRead es

/-- What an anonymous class reads. -/
@[simp]
def classReads : Option (List Method) → List Read
  | none => []
  | some methods => methodsRead methods

/-- What the methods read. -/
@[simp]
def methodsRead : List Method → List Read
  | [] => []
  | m :: ms => m.reads ++ methodsRead ms

/-- What the method reads. -/
@[simp]
def Method.reads : Method → List Read
  | .mk _ _ _ _ _ body => bodyReads body

/-- What the statements read, if there are any. -/
@[simp]
def bodyReads : Option (List Stmt) → List Read
  | none => []
  | some body => stmtsRead body

/-- What the declaration reads. -/
@[simp]
def VarDecl.reads : VarDecl → List Read
  | .mk _ _ _ init => valueReads init

/-- What the declarations read. -/
@[simp]
def varsRead : List VarDecl → List Read
  | [] => []
  | v :: vs => v.reads ++ varsRead vs

/-- What the statement reads. -/
@[simp]
def Stmt.reads : Stmt → List Read
  | .declare var => var.reads
  | .exec e => e.reads
  | .branch test yes no => test.reads ++ stmtsRead yes ++ bodyReads no
  | .whileLoop test body => test.reads ++ stmtsRead body
  | .forLoop init test step body =>
    varsRead init ++ test.reads ++ exprsRead step ++ stmtsRead body
  | .leave => []
  | .ret value => valueReads value
  | .block body => stmtsRead body

/-- What the statements read. -/
@[simp]
def stmtsRead : List Stmt → List Read
  | [] => []
  | s :: ss => s.reads ++ stmtsRead ss

end

/-- The reads of variables with one of the names. -/
def readsOf (names : List String) (reads : List Read) : List Read :=
  reads.filter fun r => names.contains r.1

theorem readsOf_append (names : List String) (reads more : List Read) :
    readsOf names (reads ++ more) = readsOf names reads ++ readsOf names more :=
  List.filter_append ..

end Target

/-! ## Conversions -/

namespace Env

open Lowering
open Target (Expr Stmt readsOf readsOf_append)

variable (env : Env) {names : List String}

theorem boxValue_reads {e code : Expr} {t : Ty} (h : (env.boxValue e t).answer? = some code) :
    code.reads = e.reads := by
  have hinto : ∀ {d typeArgs}, (env.boxInto d typeArgs e).answer? = some code →
      code.reads = e.reads := by
    intro d typeArgs h
    obtain ⟨name, _, hcode⟩ := TypeLowering.answer?_bind.mp h
    cases hcode
    simp [Expr.callStatic]
  unfold boxValue at h
  split at h
  · exact hinto h
  · split at h
    · obtain ⟨element, _, hcode⟩ := TypeLowering.answer?_bind.mp h
      exact hinto hcode
    · split at h
      · cases h
        simp [Expr.null]
      · cases h
        rfl

theorem unboxString_reads (e : Expr) : (unboxString e).reads = e.reads := by
  unfold unboxString
  split
  · rfl
  · simp [Expr.get, Expr.callOn]

/-- The value of a possibly absent string is read once, into a name of its
own. -/
theorem unboxOptionalString_reads (hnames : ∀ x ∈ names, Plain x) (e : Expr) :
    Gives (fun code => readsOf names code.reads = readsOf names e.reads)
      (env.unboxOptionalString e) := by
  unfold unboxOptionalString
  split
  · exact .pure rfl
  · intro s code s' h
    obtain ⟨tmp, s₁, hfresh, h⟩ := yields_bind.mp h
    obtain ⟨ty, s₂, _, h⟩ := yields_bind.mp h
    obtain ⟨rfl, _⟩ := yields_pure.mp h
    obtain ⟨rfl, _⟩ := yields_fresh.mp hfresh
    have hown : synthetic Support.temporary s.names.next ∉ names := fun hmem =>
      not_plain_synthetic _ _ (hnames _ hmem)
    simp [fresh_eq, readsOf, Stmt.declareFinal, Expr.null, unboxString_reads, hown]

theorem unboxValue_reads (hnames : ∀ x ∈ names, Plain x) (e : Expr) (t : Ty) :
    Gives (fun code => readsOf names code.reads = readsOf names e.reads) (env.unboxValue e t) := by
  unfold unboxValue
  split
  · exact .pure (by rw [unboxString_reads])
  · split
    · exact .pure (by simp [Expr.get, Expr.callOn])
    · split
      · exact env.unboxOptionalString_reads hnames e
      · exact .pure rfl

/-- A conversion reads what it converts, each as often as it is read there. -/
theorem convert_reads (hnames : ∀ x ∈ names, Plain x) (e : Expr) (isBoxed : Bool) (t : Ty)
    (form : Form) :
    Gives (fun code => readsOf names code.reads = readsOf names e.reads)
      (env.convert e isBoxed t form) := by
  unfold convert
  split
  · exact .pure rfl
  · split
    · exact .pure rfl
    · exact .ofType fun code hcode => by rw [env.boxValue_reads hcode]
  · split
    · exact env.unboxValue_reads hnames e t
    · exact .pure rfl

/-! ## Forwarded arguments -/

/-- What reads an argument of `call`. -/
def argumentRead (arity position : Nat) : Target.Read :=
  if arity ≤ Support.maxFixedArity then (Support.callArg position, none)
  else (Support.callArg 0, some (.int (Int.bmod position 0x100000000)))

theorem arrivingArgument_reads (arity position : Nat) :
    (arrivingArgument position arity).reads = [argumentRead arity position] := by
  unfold arrivingArgument argumentRead
  split
  · simp
  · simp [Target.elementRead]

theorem unpickArgument_reads (hnames : ∀ x ∈ names, Plain x) (p : Parameter)
    (position arity : Nat) :
    Gives (fun code => readsOf names code.reads = readsOf names [argumentRead arity position])
      (env.unpickArgument p position arity) := by
  refine .after fun ty => fun s code s' h => ?_
  rw [env.convert_reads hnames _ _ _ _ h, Expr.reads, arrivingArgument_reads]

theorem unpickArguments_reads (hnames : ∀ x ∈ names, Plain x) (arity : Nat) (ps : List Parameter) :
    ∀ position, Gives (fun codes => readsOf names (Target.exprsRead codes) =
        readsOf names ((List.range' position ps.length).map (argumentRead arity)))
      (env.unpickArguments arity position ps) := by
  induction ps with
  | nil => exact fun _ => .pure rfl
  | cons p ps ih =>
    intro position
    refine (env.unpickArgument_reads hnames p position arity).bind fun code hcode => ?_
    refine (ih (position + 1)).bind fun codes hcodes => .pure ?_
    rw [Target.exprsRead, readsOf_append, hcode, hcodes, ← readsOf_append]
    rfl

theorem forwardBody_reads (hnames : ∀ x ∈ names, Plain x) (result : Ty) (call : Expr) :
    Gives (fun body => readsOf names (Target.stmtsRead body) = readsOf names call.reads)
      (env.forwardBody result call) := by
  unfold forwardBody
  split
  · exact .pure (by simp [Expr.null])
  · refine (env.convert_reads hnames call _ result .boxed).bind fun value hvalue => .pure ?_
    simpa using hvalue

end Env

end TreeLowering
