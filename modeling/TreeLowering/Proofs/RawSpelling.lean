import TreeLowering.Proofs.DeclarationName
import TreeLowering.Proofs.RawForm
set_option autoImplicit false

/-!
# Proofs: generic and raw names of a class

Written with its arguments, a class is named segment by segment, each one a
member of what is written before it.  Written raw, it has its qualified name.
The two names agree exactly where no interface stands between the class and its
outermost type, and no type inside an outermost interface is static.
-/

namespace TreeLowering

namespace Target.Ty

theorem eraseArgs_applied (base : Ty) (args : List Ty) :
    (applied base args).eraseArgs = base.eraseArgs := by
  unfold applied
  split
  · rfl
  · rw [eraseArgs]

end Target.Ty

namespace Model

variable {m : Model} {d : DeclId}

/-! ## Names written segment by segment -/

/-- The name of a declaration, given what is around it, innermost first, where
each one is selected as a member from what is before it. -/
def chainedName (m : Model) (companion : Bool) : DeclId → List DeclId → String
  | d, [] => m.nestedName companion d []
  | d, outer :: around =>
    m.chainedName companion outer around ++ "." ++
      m.spelling d ⟨false, (m.decl d).isInterface⟩

/-- The name selected segment by segment is the qualified one, or the companion's
of an interface, when nothing but the outermost type is an interface, and the
outermost one is named as a companion just when it is one. -/
theorem chainedName_eq_iff (m : Model) (companion : Bool) (d : DeclId) (around : List DeclId) :
    m.chainedName companion d around = m.nestedName (m.decl d).isInterface d around ↔
      (∀ e ∈ (d :: around).dropLast, (m.decl e).isInterface = false) ∧
        ∀ o ∈ (d :: around).getLast?, (m.decl o).isInterface = companion := by
  induction around generalizing d with
  | nil =>
    have hsuffix : ∀ s : String, s ++ "$impl" ≠ s := by
      intro s h
      simpa using congrArg String.length h
    simp only [chainedName, nestedName, companionEnd, Support.companionSuffix]
    cases hd : (m.decl d).isInterface <;> cases companion <;> simp [hd, hsuffix, (hsuffix _).symm]
  | cons outer around ih =>
    have hlast : (d :: outer :: around).getLast? = (outer :: around).getLast? := by
      rw [List.getLast?_cons_cons]
    rw [hlast, List.dropLast_cons_cons, List.forall_mem_cons]
    cases hd : (m.decl d).isInterface with
    | true =>
      -- A dot or a dollar sign stands before the name of an interface.
      simp only [chainedName, nestedName, companionEnd, spelling, hd, Bool.false_eq_true, if_true,
        if_false, reduceCtorEq, false_and, iff_false, ← String.append_assoc,
        String.append_left_inj]
      intro h
      have hend := congrArg (fun s => s.toList.getLast?) h
      simp [Support.liftedSeparator] at hend
    | false =>
      simp only [chainedName, nestedName, companionEnd, spelling, hd, Bool.false_eq_true, if_false,
        true_and, String.append_left_inj]
      exact ih outer

/-- Nothing is around the outermost type. -/
theorem ContainersFirst.enclosingTypes_outermost (h : m.ContainersFirst) {o : DeclId}
    (ho : o ∈ (d :: m.enclosingTypes d).getLast?) : m.enclosingTypes o = [] := by
  induction hindex : d.index using Nat.strongRecOn generalizing d with
  | ind n ih =>
    cases hc : m.enclosingType? d with
    | none =>
      rw [enclosingTypes_eq_nil hc] at ho
      cases ho
      exact enclosingTypes_eq_nil hc
    | some c =>
      rw [h.enclosingTypes_eq hc, List.getLast?_cons_cons] at ho
      exact ih c.index (hindex ▸ (h.enclosingType?_mem hc).2) ho rfl

/-- No interface stands between the declaration and its outermost type, and where
that is an interface, nothing inside it is static. -/
structure NamedAlike (m : Model) (d : DeclId) : Prop where
  between : ∀ e ∈ (m.enclosingTypes d).dropLast, (m.decl e).isInterface = false
  outermost : ∀ o ∈ (m.enclosingTypes d).getLast?, (m.decl o).isInterface = true →
    ∀ e ∈ (d :: m.enclosingTypes d).dropLast, (m.decl e).flags.isStatic = false

instance (m : Model) (d : DeclId) : Decidable (m.NamedAlike d) :=
  decidable_of_iff
    ((∀ e ∈ (m.enclosingTypes d).dropLast, (m.decl e).isInterface = false) ∧
      ∀ o ∈ (m.enclosingTypes d).getLast?, (m.decl o).isInterface = true →
        ∀ e ∈ (d :: m.enclosingTypes d).dropLast, (m.decl e).flags.isStatic = false)
    ⟨fun h => ⟨h.1, h.2⟩, fun h => ⟨h.between, h.outermost⟩⟩

/-- A class is named alike when the outermost type is named as a companion just
when it is an interface. -/
theorem namedAlike_iff (hd : (m.decl d).isInterface = false) {companion : Bool}
    (hcompanion : ∀ o ∈ (d :: m.enclosingTypes d).getLast?, companion = true ↔
      (m.decl o).isInterface = true ∧ m.enclosingTypes d ≠ [] ∧
        ∀ e ∈ (d :: m.enclosingTypes d).dropLast, (m.decl e).flags.isStatic = false) :
    ((∀ e ∈ (d :: m.enclosingTypes d).dropLast, (m.decl e).isInterface = false) ∧
        ∀ o ∈ (d :: m.enclosingTypes d).getLast?, (m.decl o).isInterface = companion) ↔
      m.NamedAlike d := by
  cases henclosing : m.enclosingTypes d with
  | nil =>
    rw [henclosing] at hcompanion
    have hown : companion = false := by
      rw [← Bool.not_eq_true, hcompanion d rfl]
      simp
    refine ⟨fun _ => ⟨?_, ?_⟩, fun _ => ⟨by simp, ?_⟩⟩
    · simp [henclosing]
    · simp [henclosing]
    · rintro o ⟨⟩
      exact hd.trans hown.symm
  | cons c around =>
    rw [henclosing] at hcompanion
    have hlast : (d :: c :: around).getLast? = (c :: around).getLast? := List.getLast?_cons_cons
    rw [hlast] at hcompanion ⊢
    constructor
    · rintro ⟨hclasses, houtermost⟩
      refine ⟨fun e he => ?_, fun o ho hinterface => ?_⟩
      · rw [henclosing] at he
        exact hclasses e (List.mem_cons_of_mem _ he)
      · rw [henclosing] at ho ⊢
        have hcalled : companion = true := by rw [← houtermost o ho, hinterface]
        exact ((hcompanion o ho).mp hcalled).2.2
    · rintro ⟨hbetween, houtermost⟩
      rw [henclosing] at hbetween houtermost
      refine ⟨List.forall_mem_cons.mpr ⟨hd, hbetween⟩, fun o ho => ?_⟩
      rw [Bool.eq_iff_iff, hcompanion o ho]
      constructor
      · exact fun hinterface => ⟨hinterface, by simp, houtermost o ho hinterface⟩
      · exact fun hcalled => hcalled.1

end Model

namespace TypeLowering

variable {m : Model} {lower : Ty → TypeLowering Target.Ty} {ctx : Context}

/-- A position in which a class has its own, qualified name. -/
structure NamesInFull (ctx : Context) : Prop where
  qualified : ctx.simpleName = false
  own : ctx.companion = false
  unresolved : ctx.firstBound = false

theorem NamesInFull.spellingIn (h : NamesInFull ctx) : spellingIn ctx = .full := by
  simp [TypeLowering.spellingIn, Spelling.full, h.qualified, h.own]

/-! ## The name of a chain -/

/-- A segment is its base, with arguments. -/
theorem exists_segmentBase {c : Chain} {around u : Target.Ty} {position : Nat} {d : DeclId}
    {as : List Ty} {o : Option Ty} {h : Option Hint}
    (hu : (segmentType m lower ctx c around position (.nominal d as o h)).answer? = some u) :
    ∃ base args, (segmentBase m ctx c around position d).answer? = some base ∧
      u = base.applied args := by
  have hdone : ∀ args : Option (List Target.Ty), (do
        let base ← segmentBase m ctx c around position d
        pure (Target.Ty.applied base (args.getD []))).answer? = some u →
      ∃ base args, (segmentBase m ctx c around position d).answer? = some base ∧
        u = base.applied args := by
    intro args hargs
    obtain ⟨base, hbase, hpure⟩ := answer?_bind.mp hargs
    cases hpure
    exact ⟨base, _, hbase, rfl⟩
  by_cases hcarries : c.firstWithArgs ≤ position
  · simp only [segmentType, if_pos hcarries] at hu
    obtain ⟨args, _, hargs⟩ := answer?_bind.mp hu
    exact hdone args hargs
  · simp only [segmentType, if_neg hcarries, pure_bind] at hu
    exact hdone none hu

/-- The outermost interface of a longer chain is named as its companion when all
segments carry arguments. -/
def outermostCompanion (m : Model) (c : Chain) (d : DeclId) : Bool :=
  (m.decl d).isInterface && decide (1 < c.length) && decide (c.firstWithArgs = 0)

theorem text_outermost (hctx : NamesInFull ctx) {c : Chain} (hc : c.whole.isCallable = false)
    {around u : Target.Ty} {d : DeclId} {as : List Ty} {o : Option Ty} {h : Option Hint}
    (hu : (segmentType m lower ctx c around 0 (.nominal d as o h)).answer? = some u) :
    u.eraseArgs.text = m.spelling d ⟨true, outermostCompanion m c d⟩ := by
  obtain ⟨base, args, hbase, rfl⟩ := exists_segmentBase hu
  rw [Target.Ty.eraseArgs_applied]
  unfold segmentBase at hbase
  rw [if_neg (by simp [hc]), if_pos rfl, hctx.spellingIn] at hbase
  unfold outermostCompanion
  split at hbase
  · rename_i hcompanion
    cases hbase
    simp only [Bool.and_eq_true, decide_eq_true_eq] at hcompanion
    simp [hcompanion, Target.Ty.eraseArgs, Target.Ty.text]
  · rename_i hown
    cases hbase
    have hfalse : ((m.decl d).isInterface && decide (1 < c.length) &&
        decide (c.firstWithArgs = 0)) = false := by simpa using hown
    rw [hfalse]
    rfl

theorem text_member (hctx : NamesInFull ctx) {c : Chain} (hc : c.whole.isCallable = false)
    {around u : Target.Ty} {position : Nat} {d : DeclId} {as : List Ty} {o : Option Ty}
    {h : Option Hint}
    (hu : (segmentType m lower ctx c around (position + 1) (.nominal d as o h)).answer? = some u) :
    u.eraseArgs.text =
      around.eraseArgs.text ++ "." ++ m.spelling d ⟨false, (m.decl d).isInterface⟩ := by
  obtain ⟨base, args, hbase, rfl⟩ := exists_segmentBase hu
  rw [Target.Ty.eraseArgs_applied]
  unfold segmentBase at hbase
  rw [if_neg (by simp [hc]), if_neg (by omega), hctx.own, Bool.false_or] at hbase
  cases hbase
  rw [Target.Ty.eraseArgs, Target.Ty.text]

/-- The last of several segments is written after the others. -/
theorem chainType_concat (c : Chain) (segments : List Ty) (segment : Ty) :
    ∀ (position : Nat) (around : Target.Ty),
      chainType m lower ctx c position around (segments ++ [segment]) =
        chainType m lower ctx c position around segments >>= fun t =>
          segmentType m lower ctx c t (position + segments.length) segment := by
  induction segments with
  | nil => simp [chainType]
  | cons first rest ih =>
    intro position around
    simp only [List.cons_append, chainType, bind_assoc, ih, List.length_cons]
    have hposition : position + 1 + rest.length = position + (rest.length + 1) := by omega
    rw [hposition]

/-- The segments of a chain, whose declarations are given innermost first, are
named segment by segment. -/
theorem text_chainType (hctx : NamesInFull ctx) (c : Chain) (hc : c.whole.isCallable = false)
    (companion : Bool) {around : List DeclId} :
    ∀ {d : DeclId} {segments : List Ty} {u : Target.Ty},
      segments.map Ty.decl? = (d :: around).map some →
      (∀ o ∈ (d :: around).getLast?,
        m.enclosingTypes o = [] ∧ outermostCompanion m c o = companion) →
      (chainType m lower ctx c 0 .erroneous segments.reverse).answer? = some u →
      u.eraseArgs.text = m.chainedName companion d around := by
  induction around with
  | nil =>
    intro d segments u hdecls houtermost hu
    obtain ⟨segment, rfl, hsegment⟩ : ∃ s, segments = [s] ∧ s.decl? = some d := by
      cases segments with
      | nil => simp at hdecls
      | cons s rest => cases rest <;> simp_all
    obtain ⟨henclosing, hcompanion⟩ := houtermost d rfl
    cases segment with
    | nominal d' as o h =>
      cases hsegment
      simp only [List.reverse_singleton, chainType, bind_pure] at hu
      rw [text_outermost hctx hc hu, hcompanion, Model.spelling, henclosing]
      rfl
    | union _ | inter _ | param _ | bottom | error => contradiction
  | cons outer around ih =>
    intro d segments u hdecls houtermost hu
    obtain ⟨segment, rest, rfl, hsegment, hrest⟩ : ∃ s rest, segments = s :: rest ∧
        s.decl? = some d ∧ rest.map Ty.decl? = (outer :: around).map some := by
      cases segments with
      | nil => simp at hdecls
      | cons s rest => exact ⟨s, rest, rfl, by simpa using hdecls⟩
    rw [List.reverse_cons, chainType_concat] at hu
    obtain ⟨before, hbefore, hlast⟩ := answer?_bind.mp hu
    have hlength : rest.length = around.length + 1 := by
      simpa using congrArg List.length hrest
    rw [List.length_reverse, hlength, Nat.zero_add] at hlast
    have htext := ih hrest (by simpa using houtermost) hbefore
    cases segment with
    | nominal d' as o h =>
      cases hsegment
      rw [text_member hctx hc hlast, htext, Model.chainedName]
    | union _ | inter _ | param _ | bottom | error => contradiction

/-! ## Class types -/

theorem length_takeWhile_iff {α : Type} (p : α → Bool) (l : List α) :
    l.length - 1 - (l.takeWhile p).length = 0 ↔ ∀ x ∈ l.dropLast, p x = true := by
  induction l with
  | nil => simp
  | cons x l ih =>
    cases l with
    | nil => simp
    | cons y l =>
      rw [List.dropLast_cons_cons, List.forall_mem_cons, ← ih]
      cases hx : p x with
      | false => simp [hx]
      | true =>
        simp only [List.takeWhile_cons, hx, if_true, List.length_cons, true_and]
        omega

theorem isStaticSegment_eq (m : Model) (s : Ty) :
    isStaticSegment m s = s.decl?.any fun d => (m.decl d).flags.isStatic := by
  unfold isStaticSegment
  cases s.decl? <;> rfl

/-- All segments carry arguments when none but the outermost is static. -/
theorem firstWithArgs_eq_zero_iff {t : Ty} {ds : List DeclId}
    (hdecls : t.segments.map Ty.decl? = ds.map some) :
    (Chain.of m t).firstWithArgs = 0 ↔ ∀ e ∈ ds.dropLast, (m.decl e).flags.isStatic = false := by
  have hmap : t.segments.dropLast.map Ty.decl? = ds.dropLast.map some := by
    rw [List.map_dropLast, List.map_dropLast, hdecls]
  have hdeclared : (∀ s ∈ t.segments.dropLast, isStaticSegment m s = false) ↔
      ∀ o ∈ t.segments.dropLast.map Ty.decl?,
        (o.any fun d => (m.decl d).flags.isStatic) = false := by
    rw [List.forall_mem_map]
    simp only [isStaticSegment_eq]
  have hfirst : (Chain.of m t).firstWithArgs = t.segments.length - 1 -
      (t.segments.takeWhile fun s => !isStaticSegment m s).length := rfl
  rw [hfirst, length_takeWhile_iff]
  simp only [Bool.not_eq_true']
  rw [hdeclared, hmap, List.forall_mem_map]
  simp only [Option.any_some]

variable {d : DeclId} {as : List Ty} {o : Option Ty} {h : Option Hint}

theorem simplify_eq (hoptional : (Ty.nominal d as o h).isOptional = false) :
    (Ty.nominal d as o h).simplify = .nominal d as o h := by
  rw [Ty.simplify_of_not_optional hoptional]
  rfl

/-- A class or interface that does not hold the absent value, and whose qualifying
types are the types around its declaration. -/
structure Qualified (m : Model) (t : Ty) (d : DeclId) : Prop where
  present : t.isOptional = false
  notCallable : t.isCallable = false
  decls : t.segments.map Ty.decl? = (d :: m.enclosingTypes d).map some

theorem Qualified.length_segments {t : Ty} (ht : Qualified m t d) :
    t.segments.length = (m.enclosingTypes d).length + 1 := by
  simpa using congrArg List.length ht.decls

/-- A lifted interface has its own name. -/
theorem text_liftedType (hcallable : (Ty.nominal d as o h).isCallable = false) {u : Target.Ty}
    (hu : (liftedType m lower ctx (.nominal d as o h)).answer? = some u) :
    u.eraseArgs.text = m.spelling d .full := by
  unfold liftedType at hu
  obtain ⟨args, _, hu⟩ := answer?_bind.mp hu
  simp only [Ty.decl?, hcallable, Bool.false_and, Bool.false_eq_true, if_false] at hu
  cases hu
  rw [Target.Ty.eraseArgs_applied]
  rfl

/-- A type written segment by segment is named as its declaration is when it is
an interface, which then stands alone, or named alike. -/
theorem text_chainType_iff (hfirst : m.ContainersFirst) (hctx : NamesInFull ctx)
    (ht : Qualified m (.nominal d as o h) d) (hlifted : isLifted m (.nominal d as o h) = false)
    {u : Target.Ty} (hu : (chainType m lower ctx (Chain.of m (.nominal d as o h)) 0 .erroneous
      (Ty.nominal d as o h).segments.reverse).answer? = some u) :
    u.eraseArgs.text = m.spelling d .full ↔ (m.decl d).isInterface = true ∨ m.NamedAlike d := by
  have hlength := ht.length_segments
  obtain ⟨outermost, houtermost⟩ : ∃ x, (d :: m.enclosingTypes d).getLast? = some x :=
    ⟨_, List.getLast?_eq_some_getLast (by simp)⟩
  rw [text_chainType hctx (Chain.of m (.nominal d as o h)) ht.notCallable
    (outermostCompanion m (Chain.of m (.nominal d as o h)) outermost) ht.decls (fun x hx =>
      ⟨hfirst.enclosingTypes_outermost hx, by rw [houtermost] at hx; cases hx; rfl⟩) hu]
  have hfull : m.spelling d .full = m.nestedName false d (m.enclosingTypes d) := rfl
  cases hinterface : (m.decl d).isInterface with
  | true =>
    have hnil : m.enclosingTypes d = [] := by
      simp only [isLifted, Ty.decl?, hinterface, Bool.and_true, decide_eq_false_iff_not] at hlifted
      exact List.length_eq_zero_iff.mp (by omega)
    have hcompanion : outermostCompanion m (Chain.of m (.nominal d as o h)) outermost = false := by
      simp [outermostCompanion, Chain.of, hlength, hnil]
    rw [hfull, hcompanion, hnil]
    simp [Model.chainedName]
  | false =>
    rw [hfull, ← hinterface, Model.chainedName_eq_iff, Model.namedAlike_iff hinterface]
    · simp [hinterface]
    · intro x hx
      rw [houtermost] at hx
      cases hx
      have hlong : 1 < (Ty.nominal d as o h).segments.length ↔ m.enclosingTypes d ≠ [] := by
        rw [hlength, ← List.length_pos_iff]
        omega
      simp only [outermostCompanion, Bool.and_eq_true, decide_eq_true_eq, and_assoc,
        firstWithArgs_eq_zero_iff ht.decls]
      rw [← hlong]
      rfl

/-- A generic type is named as its declaration is when it is an interface, or
named alike segment by segment. -/
theorem text_classType_iff (hfirst : m.ContainersFirst) (hctx : NamesInFull ctx)
    (ht : Qualified m (.nominal d as o h) d) (hraw : ctx.raw = false)
    (hargs : ∃ s ∈ (Ty.nominal d as o h).segments, s.args ≠ [])
    {u : Target.Ty} (hu : (classType m lower ctx (.nominal d as o h)).answer? = some u) :
    u.eraseArgs.text = m.spelling d .full ↔ (m.decl d).isInterface = true ∨ m.NamedAlike d := by
  have hgeneric : ((Ty.nominal d as o h).segments.any fun s => !s.args.isEmpty) = true := by
    simpa [List.any_eq_true] using hargs
  unfold classType at hu
  simp only [simplify_eq ht.present, hraw, hgeneric, Bool.not_false, Bool.and_self, if_true,
    hctx.qualified, Bool.false_eq_true, if_false] at hu
  split at hu
  · rename_i hlifted
    have hinterface : (m.decl d).isInterface = true := by
      simp only [isLifted, Ty.decl?, Bool.and_eq_true] at hlifted
      exact hlifted.2
    exact iff_of_true (text_liftedType ht.notCallable hu) (.inl hinterface)
  · rename_i hlifted
    exact text_chainType_iff hfirst hctx ht (by simpa using hlifted) hu

/-- Written raw, or without arguments to write, a type is written bare. -/
theorem classType_eq_bareType (hoptional : (Ty.nominal d as o h).isOptional = false)
    (hbare : ctx.raw = true ∨ ∀ s ∈ (Ty.nominal d as o h).segments, s.args = []) :
    classType m lower ctx (.nominal d as o h) = bareType m ctx (.nominal d as o h) := by
  unfold classType
  dsimp only
  rw [simplify_eq hoptional]
  rcases hbare with hraw | hnone
  · rw [hraw]
    rfl
  · have hany : ((Ty.nominal d as o h).segments.any fun s => !s.args.isEmpty) = false := by
      rw [List.any_eq_false]
      intro s hs
      simp [hnone s hs]
    rw [hany, Bool.and_false, if_neg (by simp)]

/-- The class of Booleans has no arguments to write. -/
theorem classType_boolean :
    classType m lower ctx Language.booleanTy =
      .cls <$> declName m Language.boolean (spellingIn ctx) := by
  have hbare : ∀ s ∈ Language.booleanTy.segments, s.args = [] := by decide
  rw [Language.booleanTy, Ty.of, classType_eq_bareType rfl (.inr hbare), bareType, if_neg (by simp)]

/-- A bare type is a platform string where it asks for one and may be one, else
the class by its name. -/
theorem answer?_bareType (hctx : NamesInFull ctx) :
    (bareType m ctx (.nominal d as o h)).answer? = some (.cls
      (if !(ctx.satisfies || ctx.noPrimitives) && h = some .platformString then
        Support.platformString else m.spelling d .full)) := by
  unfold bareType
  dsimp only
  split
  · rfl
  · rw [hctx.spellingIn]
    rfl

end TypeLowering

/-! ## Whole types -/

namespace Context

theorem union_rawType (ctx : Context) : ctx ∪ .rawType = { ctx with raw := true } := by
  simp [Union.union, union, rawType]

end Context

namespace TypeLowering

variable {m : Model} {lower : Ty → TypeLowering Target.Ty} {ctx : Context} {t : Ty} {d : DeclId}

theorem adjust_union_rawType (c : Config) (ctx : Context) :
    adjust c (ctx ∪ .rawType) = adjust c ctx ∪ .rawType := by
  unfold adjust
  split
  · simp [Union.union, Context.union, Context.smallNumbers, Context.rawType]
  · rfl

/-- The type is written with arguments at the position, unless it is written
raw. -/
structure Generic (m : Model) (ctx : Context) (t : Ty) : Prop where
  notRaw : ctx.raw = false
  args : ∃ s ∈ t.segments, s.args ≠ []
  present : t.isOptional = false
  notBoolean : m.isBoolean t = false
  /-- Where it may be a platform string, it does not ask for one. -/
  notString : ctx.allowsPrimitives = true → t.hint? ≠ some .platformString

/-- Raw, the type is a platform string, although with arguments it is a class:
where a class is extended or created, the hint is looked at only when there are
no arguments. -/
structure RawString (m : Model) (ctx : Context) (t : Ty) : Prop extends Generic m ctx t where
  hint : t.hint? = some .platformString
  position : ctx.satisfies = false ∧ ctx.noPrimitives = false

/-- The generic name of a class differs from its raw one: it is written with
arguments, and not named alike. -/
structure NamedApart (m : Model) (ctx : Context) (t : Ty) (d : DeclId) : Prop
    extends Generic m ctx t where
  cls : (m.decl d).isInterface = false
  apart : ¬ m.NamedAlike d

/-- Of two ways to write a type the second one always gives an answer.  For a raw
string this is the platform string, and else the two name the type alike,
arguments aside, unless it is named apart. -/
def AgreesUnless (string apart : Prop) (generic raw : TypeLowering Target.Ty) : Prop :=
  ∃ r, raw.answer? = some r ∧ (string → r = .cls Support.platformString) ∧
    ∀ u, generic.answer? = some u → ¬ string → (u.eraseArgs.text = r.text ↔ ¬ apart)

/-- The same way to write a type that is not generic. -/
theorem AgreesUnless.same (hgeneric : ¬ Generic m ctx t) {x : TypeLowering Target.Ty}
    {r : Target.Ty} (hx : x.answer? = some r) (hr : r.eraseArgs = r) :
    AgreesUnless (RawString m ctx t) (NamedApart m ctx t d) x x := by
  refine ⟨r, hx, fun hstring => absurd hstring.toGeneric hgeneric, fun u hu _ => ?_⟩
  rw [hx] at hu
  cases hu
  rw [hr]
  exact iff_of_true rfl fun hapart => hgeneric hapart.toGeneric

/-- Nothing is generic without arguments. -/
theorem not_generic (hnone : ∀ s ∈ t.segments, s.args = []) : ¬ Generic m ctx t := by
  rintro ⟨_, ⟨s, hs, hargs⟩, _⟩
  exact hargs (hnone s hs)

theorem args_of_isExactly {c : DeclId} (ht : t.isExactly (.of c []) = true) :
    ∀ s ∈ t.segments, s.args = [] := by
  obtain ⟨hint, rfl⟩ := Ty.isExactly_iff.mp ht
  simp [Ty.segments, Ty.segmentsAround, Ty.args]

/-- What has a raw form has it as a platform string, as a Boolean or as a class
without arguments, and the form has no arguments. -/
theorem rawForm?_eq_some {small : Bool} {raw : Target.Ty} (h : rawForm? m small t = some raw) :
    raw.eraseArgs = raw ∧
      (t.isPlatformString = true ∨ m.isBoolean t = true ∨ ∃ c, t.isExactly (.of c []) = true) := by
  unfold rawForm? at h
  split at h
  · rename_i hstring
    cases h
    rw [Bool.or_eq_true] at hstring
    exact ⟨rfl, hstring.symm.imp_right fun hexact => .inr ⟨_, hexact⟩⟩
  · split at h
    · rename_i hboolean
      cases h
      exact ⟨rfl, .inr (.inl hboolean)⟩
    · split at h
      · rename_i hinteger
        cases h
        exact ⟨rfl, .inr (.inr ⟨_, hinteger⟩)⟩
      · split at h
        · rename_i hfloat
          cases h
          exact ⟨rfl, .inr (.inr ⟨_, hfloat⟩)⟩
        · split at h
          · rename_i hcharacter
            cases h
            exact ⟨rfl, .inr (.inr ⟨_, hcharacter⟩)⟩
          · contradiction

theorem isBoolean_of_rawForm?_eq_none {small : Bool} (h : rawForm? m small t = none) :
    m.isBoolean t = false := by
  rw [← Bool.not_eq_true]
  intro hboolean
  unfold rawForm? at h
  rw [hboolean] at h
  split at h <;> contradiction

theorem isPlatformString_of_rawForm?_eq_none {small : Bool} (h : rawForm? m small t = none) :
    t.isPlatformString = false := by
  rw [← Bool.not_eq_true]
  intro hplatform
  unfold rawForm? at h
  rw [hplatform, Bool.or_true, if_pos rfl] at h
  contradiction

section

variable {as : List Ty} {o : Option Ty} {h : Option Hint}

theorem classType_agrees (hfirst : m.ContainersFirst) (hctx : NamesInFull ctx)
    (ht : Qualified m (.nominal d as o h) d)
    (hboolean : m.isBoolean (.nominal d as o h) = false)
    (hstring : ctx.allowsPrimitives = true → h ≠ some .platformString) :
    AgreesUnless (RawString m ctx (.nominal d as o h)) (NamedApart m ctx (.nominal d as o h) d)
      (classType m lower ctx (.nominal d as o h))
      (classType m lower (ctx ∪ .rawType) (.nominal d as o h)) := by
  have hbare : classType m lower (ctx ∪ .rawType) (.nominal d as o h) =
      bareType m ctx (.nominal d as o h) := by
    rw [Context.union_rawType, classType_eq_bareType ht.present (.inl rfl)]
    rfl
  rw [hbare]
  by_cases hwritten : ctx.raw = false ∧ ∃ s ∈ (Ty.nominal d as o h).segments, s.args ≠ []
  · obtain ⟨hraw, hargs⟩ := hwritten
    have hgeneric : Generic m ctx (.nominal d as o h) :=
      ⟨hraw, hargs, ht.present, hboolean, hstring⟩
    refine ⟨_, answer?_bareType hctx, fun hrawString => ?_, fun u hu hother => ?_⟩
    · have hhint : h = some .platformString := hrawString.hint
      rw [hrawString.position.1, hrawString.position.2, if_pos (by simp [hhint])]
    · have hname : ¬ ((!(ctx.satisfies || ctx.noPrimitives) && h = some .platformString) = true) := by
        intro hplatform
        simp only [Bool.and_eq_true, Bool.not_eq_true', Bool.or_eq_false_iff,
          decide_eq_true_eq] at hplatform
        exact hother ⟨hgeneric, hplatform.2, hplatform.1⟩
      rw [Target.Ty.text, if_neg hname, text_classType_iff hfirst hctx ht hraw hargs hu]
      constructor
      · rintro hor happart
        rcases hor with hinterface | halike
        · rw [happart.cls] at hinterface
          contradiction
        · exact happart.apart halike
      · intro hnot
        by_contra hneither
        rw [not_or] at hneither
        exact hnot ⟨hgeneric, by simpa using hneither.1, hneither.2⟩
  · rw [classType_eq_bareType ht.present]
    · exact .same (fun hgeneric => hwritten ⟨hgeneric.notRaw, hgeneric.args⟩)
        (answer?_bareType hctx) rfl
    · rw [not_and_or, Bool.not_eq_false] at hwritten
      simpa using hwritten

theorem nonNull_nominal (hoptional : (Ty.nominal d as o h).isOptional = false) :
    (Ty.nominal d as o h).nonNull = .nominal d as o h := by
  rcases Ty.nonNull_of_not_optional hoptional with hself | hsole | hempty
  · exact hself
  · contradiction
  · contradiction

/-- What has a raw form is not generic where it is written so. -/
theorem not_generic_of_rawForm? {small : Bool} {raw : Target.Ty}
    (hallows : ctx.allowsPrimitives = true)
    (hraw : rawForm? m small (.nominal d as o h) = some raw) :
    ¬ Generic m ctx (.nominal d as o h) := by
  rcases (rawForm?_eq_some hraw).2 with hplatform | hboolean | ⟨c, hexact⟩
  · intro hgeneric
    rw [Ty.isPlatformString, nonNull_nominal hgeneric.present, beq_iff_eq] at hplatform
    exact hgeneric.notString hallows hplatform
  · intro hgeneric
    rw [hgeneric.notBoolean] at hboolean
    contradiction
  · exact not_generic (args_of_isExactly hexact)

theorem booleanTy_agrees (hctx : NamesInFull ctx) (ht : ¬ Generic m ctx t) :
    AgreesUnless (RawString m ctx t) (NamedApart m ctx t d)
      (classType m lower ctx Language.booleanTy)
      (classType m lower (ctx ∪ .rawType) Language.booleanTy) := by
  have hname : spellingIn (ctx ∪ .rawType) = spellingIn ctx := by
    rw [Context.union_rawType]
    rfl
  rw [classType_boolean, classType_boolean, hname, hctx.spellingIn]
  exact .same ht rfl rfl

/-- The position of a raw type decides like that of the generic one. -/
theorem writtenType_agrees (hfirst : m.ContainersFirst) (hctx : NamesInFull ctx)
    (ht : Qualified m (.nominal d as o h) d) :
    AgreesUnless (RawString m ctx (.nominal d as o h)) (NamedApart m ctx (.nominal d as o h) d)
      (writtenType m lower ctx (.nominal d as o h))
      (writtenType m lower (ctx ∪ .rawType) (.nominal d as o h)) := by
  have hallows : (ctx ∪ .rawType).allowsPrimitives = ctx.allowsPrimitives := by
    rw [Context.union_rawType]
    rfl
  have hsmall : (ctx ∪ .rawType).small = ctx.small := by rw [Context.union_rawType]
  have hclass : exceptionClass (ctx ∪ .rawType) = exceptionClass ctx := by
    rw [Context.union_rawType]
    rfl
  have hcomposite : (Ty.nominal d as o h).simplify.isComposite = false := by
    rw [simplify_eq ht.present]
    rfl
  have hparam : (Ty.nominal d as o h).isTypeParameter = false := by
    rw [Ty.isTypeParameter, nonNull_nominal ht.present]
    rfl
  unfold writtenType
  simp only [hcomposite, hallows, hsmall, hclass, hparam, ht.present, Bool.false_eq_true, if_false,
    Bool.not_false, Bool.true_or, Bool.and_true]
  by_cases hexception : (Ty.nominal d as o h).erasesToException = true
  · rw [if_pos hexception, if_pos hexception]
    rw [Ty.erasesToException, simplify_eq ht.present] at hexception
    have hexact : (Ty.nominal d as o h).isExactly (.of Language.exception []) = true := hexception
    exact .same (not_generic (args_of_isExactly hexact)) (answer?_pure _) rfl
  · rw [if_neg hexception, if_neg hexception]
    split
    · rename_i hposition
      cases hraw : rawForm? m ctx.small (.nominal d as o h) with
      | some raw =>
        exact .same (not_generic_of_rawForm? hposition hraw) (answer?_pure raw)
          (rawForm?_eq_some hraw).1
      | none =>
        refine classType_agrees hfirst hctx ht (isBoolean_of_rawForm?_eq_none hraw) fun _ hhint => ?_
        have hplatform := isPlatformString_of_rawForm?_eq_none hraw
        rw [Ty.isPlatformString, nonNull_nominal ht.present, hhint] at hplatform
        contradiction
    · rename_i hposition
      split
      · rename_i hboolean
        refine booleanTy_agrees hctx fun hgeneric => ?_
        rw [hgeneric.notBoolean] at hboolean
        contradiction
      · rename_i hboolean
        exact classType_agrees hfirst hctx ht (by simpa using hboolean) fun hallowed =>
          absurd hallowed hposition

/-- A class or interface that erases has no arguments, unless it holds the absent
value. -/
theorem not_generic_of_erases (herases : m.erasesToObject (.nominal d as o h) = true) :
    ¬ Generic m ctx (.nominal d as o h) := by
  intro hgeneric
  have hargs := hgeneric.args
  unfold Model.erasesToObject at herases
  rw [simplify_eq hgeneric.present] at herases
  simp only [Bool.and_eq_true, Option.isNone_iff_eq_none, List.isEmpty_iff] at herases
  obtain ⟨⟨rfl, rfl⟩, _⟩ := herases
  simp [Ty.segments, Ty.segmentsAround, Ty.args] at hargs

theorem erases_of_isOptional (hoptional : (Ty.nominal d as o h).isOptional = true) :
    m.erasesToObject (.nominal d as o h) = true := by
  unfold Model.erasesToObject
  rw [Ty.simplify_of_optional hoptional]
  simp only [Ty.isOptional, Bool.or_eq_true, beq_iff_eq] at hoptional
  rcases hoptional with rfl | rfl <;> rfl

end

end TypeLowering

namespace Env

open TypeLowering

theorem orObject_some (x : TypeLowering Target.Ty) : orObject (some <$> x) = x := by
  unfold orObject
  rw [Functor.map_map]
  exact id_map x

theorem namesInFull_adjust {c : Config} {ctx : Context} (h : NamesInFull ctx) :
    NamesInFull (adjust c ctx) := by
  rcases adjust_eq c ctx with heq | heq <;> rw [heq]
  · exact h
  · exact ⟨by simp [Union.union, Context.union, Context.smallNumbers, h.qualified],
      by simp [Union.union, Context.union, Context.smallNumbers, h.own],
      by simp [Union.union, Context.union, Context.smallNumbers, h.unresolved]⟩

theorem lowerType_agrees (env : Env) {ctx : Context} {d : DeclId} {as : List Ty} {o : Option Ty}
    {h : Option Hint} (hfirst : env.model.ContainersFirst) (hctx : NamesInFull ctx)
    (hcallable : (Ty.nominal d as o h).isCallable = false)
    (hdecls : (Ty.nominal d as o h).segments.map Ty.decl? =
      (d :: env.model.enclosingTypes d).map some) :
    AgreesUnless (RawString env.model (adjust env.config ctx) (.nominal d as o h))
      (NamedApart env.model (adjust env.config ctx) (.nominal d as o h) d)
      (env.lowerType (.nominal d as o h) ctx)
      (env.lowerType (.nominal d as o h) (ctx ∪ .rawType)) := by
  have hself : ∀ k, resolveBound env.model k (Ty.nominal d as o h).collapse =
      .nominal d as o h := fun _ => resolveBound_of_not_param fun _ => rfl
  unfold lowerType lowerType?
  rw [adjust_union_rawType]
  cases herases : env.model.erasesToObject (.nominal d as o h) with
  | true =>
    rw [step_of_erases (by rwa [hself]), step_of_erases (by rwa [hself]), Context.union_rawType]
    refine .same (not_generic_of_erases herases) (r := .object) ?_ rfl
    cases (adjust env.config ctx).satisfies <;> rfl
  | false =>
    have hoptional : (Ty.nominal d as o h).isOptional = false := by
      rw [← Bool.not_eq_true]
      intro hoptional
      rw [erases_of_isOptional hoptional] at herases
      contradiction
    have herror : (Ty.nominal d as o h).collapse ≠ .error := by
      intro herror
      contradiction
    rw [step_of_not_erases herror (by rwa [hself]), step_of_not_erases herror (by rwa [hself]),
      hself, hself, orObject_some, orObject_some]
    exact writtenType_agrees hfirst (namesInFull_adjust hctx) ⟨hoptional, hcallable, hdecls⟩

/-- Small numbers do not change how arguments are written. -/
theorem generic_adjust {m : Model} {c : Config} {ctx : Context} {t : Ty} :
    Generic m (adjust c ctx) t ↔ Generic m ctx t := by
  have hraw : (adjust c ctx).raw = ctx.raw := by
    rcases adjust_eq c ctx with heq | heq <;> rw [heq]
    simp [Union.union, Context.union, Context.smallNumbers]
  have hallows := (adjust_flags c ctx).2.2
  exact ⟨fun ht => ⟨hraw ▸ ht.notRaw, ht.args, ht.present, ht.notBoolean, hallows ▸ ht.notString⟩,
    fun ht => ⟨hraw ▸ ht.notRaw, ht.args, ht.present, ht.notBoolean, hallows ▸ ht.notString⟩⟩

theorem rawString_adjust {m : Model} {c : Config} {ctx : Context} {t : Ty} :
    RawString m (adjust c ctx) t ↔ RawString m ctx t := by
  have hposition : (adjust c ctx).satisfies = ctx.satisfies ∧
      (adjust c ctx).noPrimitives = ctx.noPrimitives := by
    rcases adjust_eq c ctx with heq | heq <;> rw [heq]
    · exact ⟨rfl, rfl⟩
    · simp [Union.union, Context.union, Context.smallNumbers]
  constructor
  · rintro ⟨hgeneric, hhint, hwhere⟩
    rw [hposition.1, hposition.2] at hwhere
    exact ⟨generic_adjust.mp hgeneric, hhint, hwhere⟩
  · rintro ⟨hgeneric, hhint, hwhere⟩
    rw [← hposition.1, ← hposition.2] at hwhere
    exact ⟨generic_adjust.mpr hgeneric, hhint, hwhere⟩

theorem namedApart_adjust {m : Model} {c : Config} {ctx : Context} {t : Ty} {d : DeclId} :
    NamedApart m (adjust c ctx) t d ↔ NamedApart m ctx t d :=
  ⟨fun ht => ⟨generic_adjust.mp ht.toGeneric, ht.cls, ht.apart⟩,
    fun ht => ⟨generic_adjust.mpr ht.toGeneric, ht.cls, ht.apart⟩⟩

/-- Written raw, a class or interface always has a name.  The name that it has when
it is written with its arguments is the same one, arguments aside, exactly when
the class is not named apart: when it carries no arguments, or no interface stands
between it and its outermost type, and nothing inside an outermost interface is
static.  Only a generic class with a string's hint that is extended or created is
a platform string when it is written raw. -/
theorem lowerType_raw_agrees (env : Env) {ctx : Context} {t : Ty} {d : DeclId}
    (hfirst : env.model.ContainersFirst) (hctx : NamesInFull ctx) (hcallable : t.isCallable = false)
    (hdecls : t.segments.map Ty.decl? = (d :: env.model.enclosingTypes d).map some) :
    ∃ r, (env.lowerType t (ctx ∪ .rawType)).answer? = some r ∧
      (RawString env.model ctx t → r = .cls Support.platformString) ∧
      ∀ u, (env.lowerType t ctx).answer? = some u → ¬ RawString env.model ctx t →
        (u.eraseArgs.text = r.text ↔ ¬ NamedApart env.model ctx t d) := by
  cases t with
  | nominal d' as o h =>
    obtain rfl : d' = d := by
      simp only [Ty.segments, List.map_cons, Ty.decl?, List.cons.injEq, Option.some.injEq] at hdecls
      exact hdecls.1
    have hagrees := lowerType_agrees env hfirst hctx hcallable hdecls
    rw [rawString_adjust, namedApart_adjust] at hagrees
    exact hagrees
  | union _ | inter _ | param _ | bottom | error => simp [Ty.segments, Ty.decl?] at hdecls

/-- A class `A` with an interface `B` in it and in that a generic class `C`, and
an interface `D` with a generic class `E` in it. -/
def nestedClasses : Model where
  decls := #[
    .bare "A" .cls "demo" none,
    .bare "B" .iface "demo" (some ⟨22⟩),
    { Declaration.bare "C" .cls "demo" (some ⟨23⟩) with typeParams := [⟨10⟩] },
    .bare "D" .iface "demo" none,
    { Declaration.bare "E" .cls "demo" (some ⟨25⟩) with typeParams := [⟨11⟩] }]
  params := #[⟨"T", .invariant, [], ⟨24⟩, false⟩, ⟨"T", .invariant, [], ⟨26⟩, false⟩]

/-- The type `D.E<String>` of `nestedClasses`. -/
def companionMember : Ty := .nominal ⟨26⟩ [Language.stringTy] (some (.of ⟨25⟩ [])) none

/-- The type `A.B.C<String>` of `nestedClasses`. -/
def deepMember : Ty :=
  .nominal ⟨24⟩ [Language.stringTy] (some (.nominal ⟨23⟩ [] (some (.of ⟨22⟩ [])) none)) none

/-- A class in an interface is named `demo.D$impl.E` in both ways. -/
theorem companionMember_named_alike :
    nestedClasses.ContainersFirst ∧ NamesInFull .plain ∧ companionMember.isCallable = false ∧
      companionMember.segments.map Ty.decl? =
        (⟨26⟩ :: nestedClasses.enclosingTypes ⟨26⟩).map some ∧
      ∃ r u, ((Env.of nestedClasses .standard).lowerType companionMember
            (.plain ∪ .rawType)).answer? = some r ∧
          ((Env.of nestedClasses .standard).lowerType companionMember .plain).answer? = some u ∧
          u.eraseArgs.text = r.text := by
  have hfirst : nestedClasses.ContainersFirst := by decide
  have hctx : NamesInFull .plain := ⟨rfl, rfl, rfl⟩
  have hdecls : companionMember.segments.map Ty.decl? =
      (⟨26⟩ :: nestedClasses.enclosingTypes ⟨26⟩).map some := by decide
  have halike : nestedClasses.NamedAlike ⟨26⟩ := by decide
  have hgeneric : ((Env.of nestedClasses .standard).lowerType companionMember .plain).answer? =
      some (.apply (.member (.cls "demo.D$impl") "E") [.cls "vela.language.String"]) := rfl
  obtain ⟨r, hr, _, hiff⟩ := lowerType_raw_agrees (Env.of nestedClasses .standard) hfirst hctx
    (by decide) hdecls
  have hnamed := hiff _ hgeneric fun hstring => absurd hstring.hint (by decide)
  exact ⟨hfirst, hctx, by decide, hdecls, r, _, hr, hgeneric,
    hnamed.mpr fun hapart => hapart.apart halike⟩

/-- A class in a member interface is a member of that interface's companion, which
is named `demo.A.B$impl` in one way and `demo.A$B$impl` in the other. -/
theorem deepMember_named_apart :
    nestedClasses.ContainersFirst ∧ NamesInFull .plain ∧ deepMember.isCallable = false ∧
      deepMember.segments.map Ty.decl? =
        (⟨24⟩ :: nestedClasses.enclosingTypes ⟨24⟩).map some ∧
      ((Env.of nestedClasses .standard).lowerType deepMember .plain).answer?.map
          (fun u => u.eraseArgs.text) = some "demo.A.B$impl.C" ∧
      ((Env.of nestedClasses .standard).lowerType deepMember (.plain ∪ .rawType)).answer?.map
          Target.Ty.text = some "demo.A$B$impl.C" := by
  exact ⟨by decide, ⟨rfl, rfl, rfl⟩, by decide, by decide, rfl, rfl⟩

end Env

end TreeLowering
