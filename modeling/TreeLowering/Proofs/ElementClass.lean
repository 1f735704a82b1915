import TreeLowering.Lowering.Sequence
import TreeLowering.Proofs.CallableHeader
import TreeLowering.Proofs.CodeNode
import TreeLowering.Proofs.TestedClass
import TreeLowering.Proofs.TypeGrammar
import TreeLowering.Proofs.Yield
set_option autoImplicit false

/-!
# Proofs: the element class of an array

A sequence is made into an array of objects with the class of its elements, in a
class literal or in the creation of the array.  The class is written as the class
of a created object is, with its arguments where it has any, so it is a plain
class only where nothing is written for the arguments.
-/

namespace TreeLowering

open Lowering (Yields)
open Target (Expr)

namespace Target.Ty

theorem isPlainClass_applied {base : Ty} {args : List Ty} :
    (base.applied args).isPlainClass = true ↔ base.isPlainClass = true ∧ args = [] := by
  cases args <;> simp [applied, isPlainClass]

end Target.Ty

namespace TypeLowering

variable {m : Model} {lower : Ty → TypeLowering Target.Ty} {small : Bool} {t owner : Ty}
  {pairs : List (ParamId × Option Ty)} {u : Target.Ty}

/-! ## Arguments of a created class -/

/-- The position of the class of an array's elements, where numbers may be
small. -/
def ofElement (small : Bool) : Context :=
  { noPrimitives := true, creating := true, small := small }

theorem adjust_elementPosition (c : Config) :
    adjust c Env.elementPosition = ofElement c.smallIntegers := by
  unfold adjust
  cases c.smallIntegers <;> rfl

/-- The argument of a parameter has no type of its own on the target. -/
def LacksType (m : Model) (x : ParamId × Option Ty) : Prop := ∃ a ∈ x.2, m.isNoArgument a = true

theorem argument_eq_none_iff {x : ParamId × Option Ty} {o : Option Target.Ty}
    (h : (argument m lower (ofElement small) owner x.1 x.2).answer? = some o) :
    o = none ↔ LacksType m x := by
  obtain ⟨p, arg⟩ := x
  cases arg with
  | none =>
    cases h
    simp [LacksType]
  | some t =>
    dsimp only at h
    rw [argument_creating rfl] at h
    cases hno : m.isNoArgument t with
    | true =>
      rw [hno, if_pos rfl] at h
      cases h
      simp [LacksType, hno]
    | false =>
      rw [hno, if_neg (by simp)] at h
      split at h
      · cases h
        simp [LacksType, hno]
      · rw [answer?_map, Option.map_eq_some_iff] at h
        obtain ⟨_, _, rfl⟩ := h
        simp [LacksType, hno]

/-- An argument without a type makes the whole type raw, and nothing else does. -/
theorem arguments_cases {o : Option (List Target.Ty)}
    (h : (arguments m lower (ofElement small) owner pairs).answer? = some o) :
    (o = none ∧ ∃ x ∈ pairs, LacksType m x) ∨
      ∃ ts, o = some ts ∧ ts.length = pairs.length ∧ ∀ x ∈ pairs, ¬ LacksType m x := by
  induction pairs generalizing o with
  | nil =>
    cases h
    exact .inr ⟨[], rfl, rfl, by simp⟩
  | cons x rest ih =>
    unfold arguments at h
    obtain ⟨a, ha, h⟩ := answer?_bind.mp h
    have hfirst := argument_eq_none_iff ha
    cases a with
    | none =>
      cases h
      exact .inl ⟨rfl, x, List.mem_cons_self, hfirst.mp rfl⟩
    | some a =>
      have hx : ¬ LacksType m x := fun hlacks => by simpa using hfirst.mpr hlacks
      obtain ⟨as, has, h⟩ := answer?_bind.mp h
      obtain ⟨rfl, y, hy, hlacks⟩ | ⟨ts, rfl, hlength, hrest⟩ := ih has
      · cases h
        exact .inl ⟨rfl, y, List.mem_cons_of_mem _ hy, hlacks⟩
      · cases h
        exact .inr ⟨a :: ts, rfl, congrArg (· + 1) hlength,
          List.forall_mem_cons.mpr ⟨hx, hrest⟩⟩

/-- Nothing is written for arguments: there are none, or one of them lacks a
type. -/
def NoneWritten (m : Model) (pairs : List (ParamId × Option Ty)) : Prop :=
  pairs = [] ∨ ∃ x ∈ pairs, LacksType m x

theorem arguments_eq_nil_iff {o : Option (List Target.Ty)}
    (h : (arguments m lower (ofElement small) owner pairs).answer? = some o) :
    o.getD [] = [] ↔ NoneWritten m pairs := by
  obtain ⟨rfl, hlacks⟩ | ⟨ts, rfl, hlength, hnone⟩ := arguments_cases h
  · exact iff_of_true rfl (.inr hlacks)
  · have hempty : ts = [] ↔ pairs = [] := by
      rw [← List.length_eq_zero_iff, hlength, List.length_eq_zero_iff]
    rw [Option.getD_some, hempty, NoneWritten, or_iff_left]
    rintro ⟨x, hx, hlacks⟩
    exact hnone x hx hlacks

/-! ## Segments of a created class -/

/-- The name of a segment is a plain class where it is outermost or belongs to a
function value's class, and else where what is around it is. -/
theorem segmentBase_plain_iff {c : Chain} {around base : Target.Ty} {position : Nat} {d : DeclId}
    (h : (segmentBase m (ofElement small) c around position d).answer? = some base) :
    base.isPlainClass = true ↔
      c.whole.isCallable = true ∨ position = 0 ∨ around.isPlainClass = true := by
  unfold segmentBase at h
  split at h
  · rename_i hcallable
    cases h
    exact iff_of_true rfl (.inl (by simpa [ofElement] using hcallable))
  · rename_i hcallable
    have hnot : ¬ c.whole.isCallable = true := by simpa [ofElement] using hcallable
    split at h
    · rename_i hposition
      refine iff_of_true ?_ (.inr (.inl hposition))
      split at h <;> · cases h; rfl
    · rename_i hposition
      cases h
      simp [hnot, hposition, Target.Ty.isPlainClass]

theorem segmentType_plain_iff {c : Chain} {around : Target.Ty} {position : Nat} {segment : Ty}
    (h : (segmentType m lower (ofElement small) c around position segment).answer? = some u) :
    u.isPlainClass = true ↔ segment.decl?.isSome = true ∧
      NoneWritten m (segmentPairs m c position segment) ∧
      (c.whole.isCallable = true ∨ position = 0 ∨ around.isPlainClass = true) := by
  cases segment with
  | nominal d as o hint =>
    have hbase : ∀ {args : Option (List Target.Ty)},
        (segmentBase m (ofElement small) c around position d >>= fun base =>
          pure (Target.Ty.applied base (args.getD []))).answer? = some u →
        (u.isPlainClass = true ↔ args.getD [] = [] ∧
          (c.whole.isCallable = true ∨ position = 0 ∨ around.isPlainClass = true)) := by
      intro args h
      obtain ⟨base, hbase, h⟩ := answer?_bind.mp h
      cases h
      rw [Target.Ty.isPlainClass_applied, segmentBase_plain_iff hbase, and_comm]
    have hflat : flatArguments m [.nominal d as o hint] = segmentArguments m d as := by
      simp [flatArguments]
    simp only [Ty.decl?, Option.isSome_some, true_and]
    unfold segmentType at h
    unfold segmentPairs
    by_cases hcarries : c.firstWithArgs ≤ position
    · simp only [if_pos hcarries] at h ⊢
      obtain ⟨args, hargs, h⟩ := answer?_bind.mp h
      rw [hbase h, arguments_eq_nil_iff hargs, hflat]
    · simp only [if_neg hcarries, pure_bind] at h ⊢
      rw [hbase h]
      simp [NoneWritten]
  | union _ | inter _ | param _ | bottom | error =>
    cases h
    simp [Ty.decl?, Target.Ty.isPlainClass]

/-- Segments are written as a plain class, innermost first: nothing is written for
the arguments of any of them.  A function value's class has one name for all. -/
def ChainBare (m : Model) (c : Chain) : List Ty → Prop
  | [] => False
  | segment :: rest =>
    segment.decl?.isSome = true ∧ NoneWritten m (segmentPairs m c rest.length segment) ∧
      (c.whole.isCallable = true ∨ rest = [] ∨ ChainBare m c rest)

theorem chainType_plain_iff {c : Chain} {segments : List Ty}
    (h : (chainType m lower (ofElement small) c 0 .erroneous segments.reverse).answer? = some u) :
    u.isPlainClass = true ↔ ChainBare m c segments := by
  induction segments generalizing u with
  | nil =>
    cases h
    exact iff_of_false Bool.false_ne_true id
  | cons segment rest ih =>
    -- the innermost segment is written last, after all that is around it
    rw [List.reverse_cons, chainType_concat, List.length_reverse, Nat.zero_add] at h
    obtain ⟨around, haround, h⟩ := answer?_bind.mp h
    rw [segmentType_plain_iff h, ih haround, ChainBare, List.length_eq_zero_iff]

/-! ## Created classes -/

/-- The type is written as a plain class where an object of it is created. -/
def CreatedBare (m : Model) (t : Ty) : Prop :=
  t.simplify.decl?.isSome = true ∧
    ((t.simplify.segments.any fun s => !s.args.isEmpty) = true →
      if isLifted m t.simplify then
        NoneWritten m (writtenArguments t.simplify.isCallable
          (flatArguments m t.simplify.segments.reverse))
      else ChainBare m (Chain.of m t.simplify) t.simplify.segments)

theorem liftedType_plain_iff (hdecl : t.decl?.isSome = true)
    (h : (liftedType m lower (ofElement small) t).answer? = some u) :
    u.isPlainClass = true ↔
      NoneWritten m (writtenArguments t.isCallable (flatArguments m t.segments.reverse)) := by
  obtain ⟨d, hd⟩ := Option.isSome_iff_exists.mp hdecl
  unfold liftedType at h
  obtain ⟨args, hargs, h⟩ := answer?_bind.mp h
  have hbase : ∃ name, u = (Target.Ty.cls name).applied (args.getD []) := by
    simp only [hd] at h
    split at h <;> · cases h; exact ⟨_, rfl⟩
  obtain ⟨name, rfl⟩ := hbase
  rw [Target.Ty.isPlainClass_applied, arguments_eq_nil_iff hargs]
  exact and_iff_right rfl

theorem bareType_plain_iff {ctx : Context} (h : (bareType m ctx t).answer? = some u) :
    u.isPlainClass = true ↔ t.decl?.isSome = true := by
  cases t with
  | nominal d as o hint =>
    unfold bareType at h
    dsimp only at h
    split at h <;> · cases h; exact iff_of_true rfl rfl
  | union _ | inter _ | param _ | bottom | error =>
    cases h
    exact iff_of_false Bool.false_ne_true Bool.false_ne_true

/-- A segment with arguments is a class. -/
theorem isSome_decl?_of_args (h : (t.segments.any fun s => !s.args.isEmpty) = true) :
    t.decl?.isSome = true := by
  cases t with
  | nominal d as o hint => rfl
  | union _ | inter _ | param _ | bottom | error => simp [Ty.segments, Ty.args] at h

theorem classType_plain_iff (h : (classType m lower (ofElement small) t).answer? = some u) :
    u.isPlainClass = true ↔ CreatedBare m t := by
  unfold classType at h
  unfold CreatedBare
  have hraw : (ofElement small).raw = false := rfl
  have hname : (ofElement small).simpleName = false := rfl
  simp only [hraw, hname, Bool.not_false, Bool.true_and, Bool.false_eq_true, if_false] at h
  split at h
  · rename_i hargs
    have hdecl := isSome_decl?_of_args hargs
    simp only [hdecl, hargs, true_and, forall_const]
    split at h
    · rename_i hlifted
      rw [if_pos hlifted]
      exact liftedType_plain_iff hdecl h
    · rename_i hlifted
      rw [if_neg hlifted]
      exact chainType_plain_iff h
  · rename_i hargs
    rw [bareType_plain_iff h]
    simp [hargs]

/-- What does not erase is written as a plain class.  The classes of exceptions and
the Boolean class have no arguments. -/
def WrittenBare (m : Model) (t : Ty) : Prop :=
  if t.simplify.isComposite then CreatedBare m ((m.iterableShape? t).getD t)
  else t.erasesToException = true ∨ (m.isBoolean t && !t.isTypeParameter) = true ∨ CreatedBare m t

theorem writtenType_plain_iff (h : (writtenType m lower (ofElement small) t).answer? = some u) :
    u.isPlainClass = true ↔ WrittenBare m t := by
  have hprimitives : (ofElement small).allowsPrimitives = false := rfl
  unfold WrittenBare
  simp only [writtenType, hprimitives, Bool.false_and, Bool.false_eq_true, if_false] at h
  split at h
  · rename_i hcomposite
    rw [if_pos hcomposite]
    exact classType_plain_iff h
  rename_i hcomposite
  rw [if_neg hcomposite]
  split at h
  · rename_i hexception
    cases h
    exact iff_of_true rfl (.inl hexception)
  rename_i hexception
  rw [or_iff_right hexception]
  split at h
  · rename_i hboolean
    rw [answer?_classType_boolean ⟨rfl, rfl, rfl⟩] at h
    cases h
    exact iff_of_true rfl (.inl hboolean)
  · rename_i hboolean
    rw [or_iff_right hboolean]
    exact classType_plain_iff h

end TypeLowering

namespace Model

open TypeLowering

variable {m : Model} {t : Ty}

/-! ## Element classes -/

/-- The class of an element is written as a plain class: the type erases to the root
object, or else is written so. -/
def HasElementClass (m : Model) (t : Ty) : Prop :=
  t.collapse ≠ .error ∧ (m.erasesToObject t.collapse = true ∨ WrittenBare m t.collapse)

/-- A class without arguments is its own element class. -/
theorem hasElementClass_nominal {d : DeclId} {as : List Ty} {o : Option Ty} {h : Option Hint}
    (hbare : ∀ s ∈ (Ty.nominal d as o h).segments, s.args = []) :
    m.HasElementClass (.nominal d as o h) := by
  have hself : (Ty.nominal d as o h).collapse = .nominal d as o h := rfl
  have hcreated : m.erasesToObject (.nominal d as o h) = false →
      CreatedBare m (.nominal d as o h) := by
    intro herases
    obtain hsimple | hsimple | hsimple := Ty.simplify_nominal_cases d as o h
    · refine ⟨by rw [hsimple]; rfl, fun hany => ?_⟩
      rw [hsimple, List.any_eq_true] at hany
      obtain ⟨s, hs, hargs⟩ := hany
      rw [hbare s hs] at hargs
      contradiction
    · rw [erasesToObject, hsimple] at herases
      contradiction
    · rw [erasesToObject, hsimple] at herases
      contradiction
  rw [HasElementClass, hself]
  refine ⟨by simp, or_iff_not_imp_left.mpr fun herases => ?_⟩
  rw [WrittenBare, simplify_nominal_simple, if_neg Bool.false_ne_true]
  exact .inr (.inr (hcreated (by simpa using herases)))

/-- A type parameter never has an element class, whatever its bounds are. -/
theorem not_hasElementClass_param (m : Model) (p : ParamId) : ¬ m.HasElementClass (.param p) := by
  have hself : (Ty.param p).collapse = .param p := rfl
  have hsimple : (Ty.param p).simplify = .param p := rfl
  have hparameter : (Ty.param p).isTypeParameter = true := rfl
  rw [HasElementClass, hself, erasesToObject, hsimple]
  simp [WrittenBare, hsimple, hparameter, CreatedBare, Ty.isComposite, Ty.erasesToException, Ty.withoutHint,
    Ty.decl?, Language.exceptionTy, Ty.of]

end Model

namespace Env

open TypeLowering

variable {env : Env} {t : Ty} {c : Target.Ty}

theorem elementClass_plain_iff (h : (env.lowerType t elementPosition).answer? = some c) :
    c.isPlainClass = true ↔ env.model.HasElementClass t := by
  unfold lowerType lowerType? at h
  rw [adjust_elementPosition] at h
  unfold Model.HasElementClass
  by_cases herror : t.collapse = .error
  · rw [orObject_step_of_error herror] at h
    cases h
    exact iff_of_false Bool.false_ne_true fun h => h.1 herror
  cases herases : env.model.erasesToObject t.collapse with
  | true =>
    rw [orObject_step_of_erases herases] at h
    cases h
    exact iff_of_true rfl ⟨herror, .inl rfl⟩
  | false =>
    rw [orObject_step_of_not_erases rfl herror herases] at h
    rw [writtenType_plain_iff h]
    simp [herror]

/-- No element class is a primitive type or a wildcard. -/
theorem elementClass_isReference (h : (env.lowerType t elementPosition).answer? = some c) :
    c.isWildcard = false ∧ ∀ p, c ≠ .primitive p := by
  unfold lowerType orObject at h
  rw [answer?_map, Option.map_eq_some_iff] at h
  obtain ⟨o, ho, rfl⟩ := h
  cases o with
  | none => exact ⟨rfl, nofun⟩
  | some c =>
    have hensures : Ensures (fun _ => False)
        (fun o => ∀ c ∈ o, OrPrimitive (fun c => ∀ start, c.PlacedAt start) elementPosition c)
        (env.lowerType? t elementPosition) :=
      lowerType?_ensures (placedAt_formation _ .never) fun v _ => writes_placedAt env.model v
    obtain hplaced | ⟨hallowed, _⟩ := hensures.answer ho c rfl
    · refine ⟨Target.Ty.isWildcard_of_fitsAt (Target.Ty.placedAt_iff.mp (hplaced .whole)).1, ?_⟩
      -- it would be in place as an argument too, where no primitive type is
      rintro p rfl
      exact absurd (Target.Ty.placedAt_iff.mp (hplaced .argument)).1.1 (by decide)
    · contradiction

/-! ## Conversions to arrays -/

variable {e code : Expr} {element seqType exprType : Ty} {form : Form} {s s' : LowerState}

/-- The conversion to an array of objects writes one element class, after those of
the sequence itself. -/
theorem objectArray_elementClasses (h : Yields (env.objectArray element e exprType) s code s') :
    ∃ c, (env.lowerType element elementPosition).answer? = some c ∧
      code.elementClasses = e.elementClasses ++ [c] := by
  unfold objectArray at h
  split at h
  · unfold fixedSizedArray at h
    obtain ⟨c, s₁, hc, h⟩ := Lowering.yields_bind.mp h
    obtain ⟨fixed, s₂, _, h⟩ := Lowering.yields_bind.mp h
    obtain ⟨seq, s₃, _, h⟩ := Lowering.yields_bind.mp h
    obtain ⟨rfl, _⟩ := Lowering.yields_pure.mp h
    refine ⟨c, hc.answer, ?_⟩
    simp [Expr.elementClasses, Target.Stmt.declareFinal, Expr.static, Expr.callStatic, Expr.get,
      Expr.callOn, Target.Node.created]
  · obtain ⟨c, s₁, hc, h⟩ := Lowering.yields_bind.mp h
    obtain ⟨rfl, _⟩ := Lowering.yields_pure.mp h
    refine ⟨c, hc.answer, ?_⟩
    simp [Expr.elementClasses, Expr.static, Expr.callStatic, Target.Node.created]

/-- Raw elements need no class, apart from strings, which are objects. -/
def NeedsNoClass (env : Env) (form : Form) (element : Ty) : Prop :=
  form = .raw ∧ env.rawArrayPlan element ≠ .objects

/-- The conversion of a sequence to an array writes no class where it needs none,
and else the class of the elements. -/
theorem sequenceToArray_elementClasses
    (h : Yields (env.sequenceToArray e seqType form exprType) s code s') :
    (env.NeedsNoClass form ((env.model.iteratedType? seqType).getD .error) ∧
      code.elementClasses = e.elementClasses) ∨
    ¬ env.NeedsNoClass form ((env.model.iteratedType? seqType).getD .error) ∧
      ∃ c, (env.lowerType ((env.model.iteratedType? seqType).getD .error)
          elementPosition).answer? = some c ∧
        code.elementClasses = e.elementClasses ++ [c] := by
  unfold sequenceToArray at h
  dsimp only at h
  split at h
  · rename_i hform
    exact .inr ⟨fun hno => hform hno.1, objectArray_elementClasses h⟩
  · rename_i hform
    have hraw : form = .raw := by simpa using hform
    split at h
    · rename_i name hplan
      obtain ⟨rfl, _⟩ := Lowering.yields_pure.mp h
      refine .inl ⟨⟨hraw, by simp [hplan]⟩, ?_⟩
      simp [Expr.elementClasses, Expr.static, Expr.callStatic, Target.Node.created]
    · rename_i hplan
      exact .inr ⟨fun hno => hno.2 hplan, objectArray_elementClasses h⟩
    · rename_i hplan
      obtain ⟨_, _, _, h⟩ := Lowering.yields_bind.mp h
      obtain ⟨rfl, _⟩ := Lowering.yields_pure.mp h
      exact .inl ⟨⟨hraw, by simp [hplan]⟩, rfl⟩

/-- The classes that a conversion adds to those of the sequence are one at most,
and none where it needs none.  They are no primitive types and no wildcards, and
are plain exactly where the element has an element class. -/
theorem sequenceToArray_plain_iff (env : Env) (e : Expr) (seqType : Ty) (form : Form)
    (exprType : Ty) (s s' : LowerState) (code : Expr)
    (h : Yields (env.sequenceToArray e seqType form exprType) s code s') :
    ∃ own, code.elementClasses = e.elementClasses ++ own ∧ own.length ≤ 1 ∧
      (own = [] ↔ env.NeedsNoClass form ((env.model.iteratedType? seqType).getD .error)) ∧
      (∀ c ∈ own, c.isWildcard = false ∧ ∀ p, c ≠ .primitive p) ∧
      ((∀ c ∈ own, c.isPlainClass = true) ↔
        env.NeedsNoClass form ((env.model.iteratedType? seqType).getD .error) ∨
          env.model.HasElementClass ((env.model.iteratedType? seqType).getD .error)) := by
  obtain ⟨hno, hclasses⟩ | ⟨hneeds, c, hc, hclasses⟩ := sequenceToArray_elementClasses h
  · exact ⟨[], by simpa using hclasses, Nat.zero_le 1, by simp [hno], by simp, by simp [hno]⟩
  · refine ⟨[c], hclasses, Nat.le_refl 1, by simp [hneeds], ?_, ?_⟩
    · exact List.forall_mem_singleton.mpr (elementClass_isReference hc)
    · rw [List.forall_mem_singleton, elementClass_plain_iff hc, or_iff_right hneeds]

/-- A sequence of unknown size is made into an array by the class of its elements. -/
theorem exists_classArray {c : Target.Ty} (hform : form ≠ .raw)
    (hsize : env.model.isSubtypeOf exprType Language.fixedSized = false)
    (helement : env.model.iteratedType? seqType = some element)
    (hc : (env.lowerType element elementPosition).answer? = some c) (e : Expr) (s : LowerState) :
    ∃ s', Yields (env.sequenceToArray e seqType form exprType) s
      (.static Support.util [] Support.toArray [e, .classLit c]) s' := by
  have hobjects : env.sequenceToArray e seqType form exprType =
      env.objectArray element e exprType := by
    rw [sequenceToArray, helement]
    exact if_pos hform
  have hclass : env.objectArray element e exprType = (do
      let cls ← env.lowerType element elementPosition
      pure (.static Support.util [] Support.toArray [e, .classLit cls])) :=
    if_neg (by simp [hsize])
  obtain ⟨s', hs'⟩ := Lowering.exists_yields_of_answer hc s
  refine ⟨s', ?_⟩
  rw [hobjects, hclass]
  exact Lowering.yields_bind.mpr ⟨c, s', hs', Lowering.yields_pure.mpr ⟨rfl, rfl⟩⟩

/-- Iterables of iterables of a type. -/
def nestedIterable (t : Ty) : Ty := .of Language.iterable [.of Language.iterable [t]]

/-- Nothing is written for a union, so the class of iterables of a union is plain. -/
theorem unionIterable_plain :
    ∃ code s', Yields ((Env.of .new .standard).sequenceToArray (.ident "xs")
        (nestedIterable (.union [Language.integerTy, Language.stringTy])) .boxed
        (nestedIterable (.union [Language.integerTy, Language.stringTy]))) (.start .empty) code s' ∧
      ∃ own, code.elementClasses = (Expr.ident "xs").elementClasses ++ own ∧ own ≠ [] ∧
        ∀ c ∈ own, c.isPlainClass = true := by
  have hform : Form.boxed ≠ .raw := by decide
  have hsize : (Env.of .new .standard).model.isSubtypeOf
      (nestedIterable (.union [Language.integerTy, Language.stringTy]))
      Language.fixedSized = false := by decide
  have helement : (Env.of .new .standard).model.iteratedType?
      (nestedIterable (.union [Language.integerTy, Language.stringTy])) =
        some (.of Language.iterable [.union [Language.integerTy, Language.stringTy]]) := by decide
  have hclass : ((Env.of .new .standard).lowerType
      (.of Language.iterable [.union [Language.integerTy, Language.stringTy]])
      elementPosition).answer? = some (.cls "vela.language.Iterable") := by decide
  obtain ⟨s', hcode⟩ :=
    exists_classArray hform hsize helement hclass (.ident "xs") (.start .empty)
  obtain ⟨own, hown, _, hnone, _, hplain⟩ := sequenceToArray_plain_iff _ _ _ _ _ _ _ _ hcode
  rw [helement, Option.getD_some] at hplain
  refine ⟨_, s', hcode, own, hown, fun h => ?_, hplain.mpr (.inr ?_)⟩
  · exact absurd (hnone.mp h).1 hform
  · exact (elementClass_plain_iff hclass).mp rfl

/-- The elements of an array are named with their arguments, and by a type variable
where they have the type of a parameter. -/
theorem genericElement_not_plain :
    (∃ code s', Yields ((Env.of .new .standard).sequenceToArray (.ident "xs")
        (nestedIterable Language.integerTy) .boxed (nestedIterable Language.integerTy))
        (.start .empty) code s' ∧
      code.elementClasses =
        [.apply (.cls "vela.language.Iterable") [.cls "vela.language.Integer"]]) ∧
    ∃ code s', Yields (Env.boundedParams.sequenceToArray (.ident "xs")
        (.of Language.iterable [.param ⟨10⟩]) .boxed (.of Language.iterable [.param ⟨10⟩]))
        (.start .empty) code s' ∧
      code.elementClasses = [.var "S"] := by
  have hform : Form.boxed ≠ .raw := by decide
  refine ⟨?_, ?_⟩
  · have hsize : (Env.of .new .standard).model.isSubtypeOf (nestedIterable Language.integerTy)
        Language.fixedSized = false := by decide
    have helement : (Env.of .new .standard).model.iteratedType?
        (nestedIterable Language.integerTy) =
          some (.of Language.iterable [Language.integerTy]) := by decide
    have hclass : ((Env.of .new .standard).lowerType (.of Language.iterable [Language.integerTy])
        elementPosition).answer? =
          some (.apply (.cls "vela.language.Iterable") [.cls "vela.language.Integer"]) := by
      decide
    obtain ⟨s', hcode⟩ :=
      exists_classArray hform hsize helement hclass (.ident "xs") (.start .empty)
    exact ⟨_, s', hcode, rfl⟩
  · have hsize : boundedParams.model.isSubtypeOf (.of Language.iterable [.param ⟨10⟩])
        Language.fixedSized = false := by decide
    have helement : boundedParams.model.iteratedType? (.of Language.iterable [.param ⟨10⟩]) =
        some (.param ⟨10⟩) := by decide
    have hclass : (boundedParams.lowerType (.param ⟨10⟩) elementPosition).answer? =
        some (.var "S") := by decide
    obtain ⟨s', hcode⟩ :=
      exists_classArray hform hsize helement hclass (.ident "xs") (.start .empty)
    exact ⟨_, s', hcode, rfl⟩

end Env

end TreeLowering
