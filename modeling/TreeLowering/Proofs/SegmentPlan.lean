import TreeLowering.Proofs.ClauseForm
import Mathlib.Data.List.Forall2
set_option autoImplicit false

/-!
# Proofs: the plan of a class type

A class type is written segment by segment, outermost first, and each segment
carries the arguments of its own declaration.  What a segment is written with is
planned here ahead of the lowering of any argument, and the lowering keeps to the
plan: the arguments of a segment are left out only where they force it raw.

Everything else that a type can be lowered to is a name without arguments.
-/

namespace TreeLowering

namespace Target

/-- A name in a class type, with the arguments that are given to it. -/
structure Segment where
  name : String
  args : List Ty
  deriving DecidableEq, Repr

namespace Ty

/-- The segments of a class type, outermost first.  What is no class type has
none. -/
def segments : Ty → List Segment
  | cls name => [⟨name, []⟩]
  | member outer name => segments outer ++ [⟨name, []⟩]
  | apply (cls name) args => [⟨name, args⟩]
  | apply (member outer name) args => segments outer ++ [⟨name, args⟩]
  | _ => []

theorem segments_applied_cls (name : String) (args : List Ty) :
    ((cls name).applied args).segments = [⟨name, args⟩] := by
  cases args <;> simp [applied, segments]

theorem segments_applied_member (outer : Ty) (name : String) (args : List Ty) :
    ((member outer name).applied args).segments = outer.segments ++ [⟨name, args⟩] := by
  cases args <;> simp [applied, segments]

/-- The type is a name without arguments and without a variable, or the
placeholder. -/
def isName : Ty → Bool
  | primitive _ | cls _ | erroneous => true
  | _ => false

theorem args_of_isName {t : Ty} (h : t.isName = true) : ∀ s ∈ t.segments, s.args = [] := by
  cases t with
  | primitive _ | cls _ | erroneous => simp [segments]
  | member _ _ | apply _ _ | var _ | array _ | anyType | subtypeOf _ | supertypeOf _ =>
    contradiction

end Ty

end Target

theorem exists_of_forall₂ {α β : Type} {R : α → β → Prop} {xs : List α} {ys : List β}
    (h : List.Forall₂ R xs ys) {y : β} (hy : y ∈ ys) : ∃ x ∈ xs, R x y := by
  induction h with
  | nil => contradiction
  | cons hfirst _ ih =>
    rcases List.mem_cons.mp hy with rfl | hrest
    · exact ⟨_, List.mem_cons_self, hfirst⟩
    · obtain ⟨x, hx, hxy⟩ := ih hrest
      exact ⟨x, List.mem_cons_of_mem _ hx, hxy⟩

namespace TypeLowering

/-- The settings decide about small numbers only. -/
theorem adjust_with_small (c : Config) (ctx : Context) :
    adjust c ctx = { ctx with small := (adjust c ctx).small } := by
  rcases Env.adjust_eq c ctx with heq | heq <;> rw [heq]
  simp [Union.union, Context.union, Context.smallNumbers]

variable {m : Model} {lower : Ty → TypeLowering Target.Ty} {ctx : Context} {c : Chain} {t : Ty}
  {u : Target.Ty}

/-! ## Plans -/

/-- What a segment is to be written with: its name, and parameters with the
arguments that are given for them. -/
structure SegmentPlan where
  name : String
  owner : Ty
  pairs : List (ParamId × Option Ty)

/-- The segment has the planned name, and carries what is written for the planned
arguments unless one of them forces it raw. -/
def SegmentPlan.Fills (m : Model) (lower : Ty → TypeLowering Target.Ty) (ctx : Context)
    (plan : SegmentPlan) (segment : Target.Segment) : Prop :=
  segment.name = plan.name ∧ ∃ o, (arguments m lower ctx plan.owner plan.pairs).answer? = some o ∧
    segment.args = o.getD []

/-- The name that a segment is written with. -/
def segmentName (m : Model) (ctx : Context) (c : Chain) (position : Nat) (d : DeclId) : String :=
  if c.whole.isCallable && ctx.creating then Support.abstractCallable
  else if position = 0 then
    if (m.decl d).isInterface && 1 < c.length && c.firstWithArgs = 0 then m.spelling d ⟨true, true⟩
    else m.spelling d (spellingIn ctx)
  else m.spelling d ⟨false, ctx.companion || (m.decl d).isInterface⟩

/-- The plan for a segment, if it is a class or interface. -/
def segmentPlan? (m : Model) (ctx : Context) (c : Chain) (position : Nat) (segment : Ty) :
    Option SegmentPlan :=
  segment.decl?.map fun d =>
    ⟨segmentName m ctx c position d, segment, segmentPairs m c position segment⟩

/-- The plans for segments that are given innermost first, outermost first.  What
is around a segment that cannot be written is not written either. -/
def chainPlan (m : Model) (ctx : Context) (c : Chain) : List Ty → List SegmentPlan
  | [] => []
  | segment :: rest =>
    match segmentPlan? m ctx c rest.length segment with
    | some plan => chainPlan m ctx c rest ++ [plan]
    | none => []

/-- The plan for a type that is written without arguments. -/
def barePlan (m : Model) (ctx : Context) : Ty → List SegmentPlan
  | .nominal d as o h =>
    [⟨if !(ctx.satisfies || ctx.noPrimitives) && h = some .platformString then
        Support.platformString else m.spelling d (spellingIn ctx), .nominal d as o h, []⟩]
  | _ => []

/-- The plan for a member interface that is lifted to the top level. -/
def liftedPlan (m : Model) (ctx : Context) (t : Ty) : List SegmentPlan :=
  (t.decl?.map fun d =>
    (⟨if t.isCallable && ctx.creating then Support.abstractCallable else m.spelling d .full, t,
      writtenArguments t.isCallable (flatArguments m t.segments.reverse)⟩ : SegmentPlan)).toList

/-- The plan for a simplified type. -/
def classPlan (m : Model) (ctx : Context) (t : Ty) : List SegmentPlan :=
  if !ctx.raw && t.segments.any (fun s => !s.args.isEmpty) then
    if isLifted m t then liftedPlan m ctx t
    else if ctx.simpleName then chainPlan m ctx ⟨t, 1, 0⟩ [t]
    else chainPlan m ctx (Chain.of m t) t.segments
  else barePlan m ctx t

/-! ## Class types are written as planned -/

theorem answer?_segmentBase (around : Target.Ty) (position : Nat) (d : DeclId) :
    (segmentBase m ctx c around position d).answer? = some
      (if position = 0 ∨ (c.whole.isCallable && ctx.creating) = true then
        .cls (segmentName m ctx c position d)
      else .member around (segmentName m ctx c position d)) := by
  unfold segmentBase segmentName
  by_cases hcallable : (c.whole.isCallable && ctx.creating) = true
  · rw [if_pos hcallable, if_pos hcallable, if_pos (.inr hcallable)]
    rfl
  · rw [if_neg hcallable, if_neg hcallable]
    by_cases hposition : position = 0
    · simp only [hposition, true_or, if_true]
      split <;> rfl
    · rw [if_neg hposition, if_neg hposition, if_neg (by simp [hposition, hcallable])]
      rfl

/-- A segment is written after what is around it, where anything is. -/
theorem segmentType_fills {around : Target.Ty} {position : Nat} {segment : Ty}
    {plan : SegmentPlan} (hplan : segmentPlan? m ctx c position segment = some plan)
    (hcallable : 0 < position → c.whole.isCallable = false)
    (h : (segmentType m lower ctx c around position segment).answer? = some u) :
    ∃ written, plan.Fills m lower ctx written ∧
      u.segments = (if position = 0 then [] else around.segments) ++ [written] := by
  cases segment with
  | nominal d as o hint =>
    cases hplan
    have hflat : flatArguments m [.nominal d as o hint] = segmentArguments m d as :=
      List.append_nil _
    have hdone : ∀ {args : Option (List Target.Ty)},
        (segmentBase m ctx c around position d >>= fun base =>
          pure (Target.Ty.applied base (args.getD []))).answer? = some u →
        u.segments = (if position = 0 then [] else around.segments) ++
          [⟨segmentName m ctx c position d, args.getD []⟩] := by
      intro args h
      obtain ⟨base, hbase, h⟩ := answer?_bind.mp h
      cases h
      rw [answer?_segmentBase] at hbase
      cases hbase
      by_cases hposition : position = 0
      · rw [if_pos (.inl hposition), if_pos hposition, Target.Ty.segments_applied_cls]
        rfl
      · have hown := hcallable (Nat.pos_of_ne_zero hposition)
        rw [if_neg (by simp [hposition, hown]), if_neg hposition,
          Target.Ty.segments_applied_member]
    unfold segmentType at h
    unfold SegmentPlan.Fills segmentPairs
    by_cases hcarries : c.firstWithArgs ≤ position
    · simp only [if_pos hcarries, hflat] at h ⊢
      obtain ⟨args, hargs, h⟩ := answer?_bind.mp h
      exact ⟨_, ⟨rfl, args, hargs, rfl⟩, hdone h⟩
    · simp only [if_neg hcarries, pure_bind] at h ⊢
      exact ⟨_, ⟨rfl, some [], rfl, rfl⟩, hdone h⟩
  | union _ | inter _ | param _ | bottom | error => contradiction

/-- A type that is no class or interface is no segment. -/
theorem segmentType_of_no_plan {around : Target.Ty} {position : Nat} {segment : Ty}
    (hplan : segmentPlan? m ctx c position segment = none)
    (h : (segmentType m lower ctx c around position segment).answer? = some u) :
    u.segments = [] := by
  cases segment with
  | nominal d as o hint => contradiction
  | union _ | inter _ | param _ | bottom | error =>
    cases h
    rfl

theorem chainType_singleton (m : Model) (lower : Ty → TypeLowering Target.Ty) (ctx : Context)
    (c : Chain) (position : Nat) (around : Target.Ty) (segment : Ty) :
    chainType m lower ctx c position around [segment] =
      segmentType m lower ctx c around position segment := by
  simp only [chainType, bind_pure]

theorem chainType_fills {segments : List Ty}
    (hcallable : 1 < segments.length → c.whole.isCallable = false)
    (h : (chainType m lower ctx c 0 .erroneous segments.reverse).answer? = some u) :
    List.Forall₂ (SegmentPlan.Fills m lower ctx) (chainPlan m ctx c segments) u.segments := by
  induction segments generalizing u with
  | nil =>
    cases h
    exact .nil
  | cons segment rest ih =>
    -- the innermost segment is written last, after all that is around it
    rw [List.reverse_cons, chainType_concat, List.length_reverse, Nat.zero_add] at h
    obtain ⟨around, haround, h⟩ := answer?_bind.mp h
    have houter := ih (fun hrest => hcallable (by simp; omega)) haround
    unfold chainPlan
    cases hplan : segmentPlan? m ctx c rest.length segment with
    | none =>
      rw [segmentType_of_no_plan hplan h]
      exact .nil
    | some plan =>
      obtain ⟨written, hwritten, hsegments⟩ :=
        segmentType_fills hplan (fun hrest => hcallable (by simpa using hrest)) h
      rw [hsegments]
      refine List.rel_append ?_ (.cons hwritten .nil)
      cases rest with
      | nil =>
        exact .nil
      | cons _ _ => simpa using houter

theorem liftedType_fills (h : (liftedType m lower ctx t).answer? = some u) :
    List.Forall₂ (SegmentPlan.Fills m lower ctx) (liftedPlan m ctx t) u.segments := by
  unfold liftedType at h
  obtain ⟨args, hargs, h⟩ := answer?_bind.mp h
  unfold liftedPlan
  cases hdecl : t.decl? with
  | none =>
    rw [hdecl] at h
    cases h
    cases args.getD [] <;> exact .nil
  | some d =>
    simp only [hdecl] at h
    have hname : u = (Target.Ty.cls (if t.isCallable && ctx.creating then Support.abstractCallable
        else m.spelling d .full)).applied (args.getD []) := by
      split at h
      · rename_i hcallable
        cases h
        rw [if_pos hcallable]
      · rename_i hcallable
        cases h
        rw [if_neg hcallable]
    rw [hname, Target.Ty.segments_applied_cls]
    exact .cons ⟨rfl, args, hargs, rfl⟩ .nil

theorem bareType_fills (h : (bareType m ctx t).answer? = some u) :
    List.Forall₂ (SegmentPlan.Fills m lower ctx) (barePlan m ctx t) u.segments := by
  cases t with
  | nominal d as o hint =>
    have hname : u = .cls (if !(ctx.satisfies || ctx.noPrimitives) && hint = some .platformString
        then Support.platformString else m.spelling d (spellingIn ctx)) := by
      unfold bareType at h
      dsimp only at h
      split at h
      · rename_i hstring
        cases h
        rw [if_pos hstring]
      · rename_i hstring
        cases h
        rw [if_neg hstring]
    rw [hname]
    exact .cons ⟨rfl, some [], rfl, rfl⟩ .nil
  | union _ | inter _ | param _ | bottom | error =>
    cases h
    exact .nil

theorem not_lifted_of_class (h : ∀ d ∈ t.decl?, (m.decl d).isInterface = false) :
    isLifted m t = false := by
  unfold isLifted
  cases hd : t.decl? with
  | none => simp
  | some d => simp [h d hd]

/-- A function value's own type is an interface, so it is lifted where it is
qualified. -/
theorem not_callable_of_not_lifted (h : isLifted m t = false) (hlong : 1 < t.segments.length) :
    t.isCallable = false := by
  refine Bool.eq_false_iff.mpr fun hcallable => ?_
  obtain ⟨as, o, hint, rfl⟩ := Ty.isOf_iff.mp hcallable
  have hinterface : (m.decl Language.callable).isInterface = true := rfl
  simp [isLifted, hlong, Ty.decl?, hinterface] at h

/-- A class type has the planned segments, and no others. -/
theorem classType_fills (h : (classType m lower ctx t).answer? = some u) :
    List.Forall₂ (SegmentPlan.Fills m lower ctx) (classPlan m ctx t.simplify) u.segments := by
  unfold classType at h
  unfold classPlan
  dsimp only at h
  split at h
  · rename_i hwritten
    rw [if_pos hwritten]
    split at h
    · rename_i hlifted
      rw [if_pos hlifted]
      exact liftedType_fills h
    rename_i hlifted
    rw [if_neg hlifted]
    split at h
    · rename_i hname
      rw [if_pos hname]
      refine chainType_fills (by simp) ?_
      rwa [List.reverse_singleton, chainType_singleton]
    · rename_i hname
      rw [if_neg hname]
      exact chainType_fills (not_callable_of_not_lifted (Bool.eq_false_iff.mpr hlifted)) h
  · rename_i hwritten
    rw [if_neg hwritten]
    exact bareType_fills h

theorem mem_writtenArguments {callable : Bool} {x : ParamId × Option Ty}
    {pairs : List (ParamId × Option Ty)} (h : x ∈ writtenArguments callable pairs) :
    x ∈ pairs := by
  unfold writtenArguments at h
  split at h
  · exact List.mem_of_mem_take h
  · exact h

theorem mem_args_of_segmentPlan? {position : Nat} {segment arg : Ty} {p : ParamId}
    {plan : SegmentPlan} (hplan : segmentPlan? m ctx c position segment = some plan)
    (h : (p, some arg) ∈ plan.pairs) : arg ∈ segment.args := by
  obtain ⟨d, _, rfl⟩ := Option.map_eq_some_iff.mp hplan
  simp only [segmentPairs] at h
  split at h
  · obtain ⟨s, hs, harg⟩ := mem_flatArguments m (mem_writtenArguments h)
    rwa [List.mem_singleton.mp hs] at harg
  · contradiction

theorem mem_args_of_chainPlan {segments : List Ty} {arg : Ty} {p : ParamId} {plan : SegmentPlan}
    (hplan : plan ∈ chainPlan m ctx c segments) (h : (p, some arg) ∈ plan.pairs) :
    ∃ s ∈ segments, arg ∈ s.args := by
  induction segments with
  | nil => contradiction
  | cons segment rest ih =>
    unfold chainPlan at hplan
    split at hplan
    · rename_i own hown
      rcases List.mem_append.mp hplan with hrest | hself
      · obtain ⟨s, hs, harg⟩ := ih hrest
        exact ⟨s, List.mem_cons_of_mem _ hs, harg⟩
      · rw [List.mem_singleton.mp hself] at h
        exact ⟨segment, List.mem_cons_self, mem_args_of_segmentPlan? hown h⟩
    · contradiction

/-- Planned arguments are arguments of the type's segments. -/
theorem mem_args_of_classPlan {arg : Ty} {p : ParamId} {plan : SegmentPlan}
    (hplan : plan ∈ classPlan m ctx t) (h : (p, some arg) ∈ plan.pairs) :
    ∃ s ∈ t.segments, arg ∈ s.args := by
  unfold classPlan at hplan
  split at hplan
  · split at hplan
    · obtain ⟨d, _, rfl⟩ := Option.map_eq_some_iff.mp (Option.mem_toList.mp hplan)
      obtain ⟨s, hs, harg⟩ := mem_flatArguments m (mem_writtenArguments h)
      exact ⟨s, List.mem_reverse.mp hs, harg⟩
    split at hplan
    · obtain ⟨s, hs, harg⟩ := mem_args_of_chainPlan hplan h
      refine ⟨s, ?_, harg⟩
      rw [List.mem_singleton.mp hs]
      cases t <;> simp [Ty.segments]
    · exact mem_args_of_chainPlan hplan h
  · cases t with
    | nominal d as o hint =>
      rw [List.mem_singleton.mp hplan] at h
      contradiction
    | union _ | inter _ | param _ | bottom | error => contradiction

/-! ## Written arguments -/

/-- A union or intersection is seen as its iterable shape, if it has one, and any
other argument as itself. -/
theorem view_cases {arg s : Ty} (h : ArgumentView.of m ctx arg = .as s) :
    (arg.asArgument.isComposite = true ∧ ∃ shape, m.iterableShape? arg.asArgument = some shape ∧
        s = ArgumentView.widenBoolean m shape) ∨
      (arg.asArgument.isComposite = true → m.iterableShape? arg.asArgument = none) ∧
        s = ArgumentView.widenBoolean m arg.asArgument := by
  rw [view_eq] at h
  split at h
  · rename_i hcomposite
    split at h
    · rename_i shape hshape
      cases h
      exact .inl ⟨hcomposite, shape, hshape, rfl⟩
    · rename_i hshape
      split at h <;> cases h
      exact .inr ⟨fun _ => hshape, rfl⟩
  · rename_i hcomposite
    cases h
    exact .inr ⟨fun hcomposite' => absurd hcomposite' hcomposite, rfl⟩

/-- What can be written for an argument of the parameter that is seen as `s`. -/
inductive WrittenView (lower : Ty → TypeLowering Target.Ty) (ctx : Context) (p : TypeParam)
    (s : Ty) : Target.Ty → Prop
  | everything (hs : s = Language.voidTy) : WrittenView lower ctx p s (voidArgument ctx p.variance)
  /-- What has no type of its own is written as the bound of the parameter. -/
  | bound {b : Ty} {a : Target.Ty} (hs : s.isComposite = true) (hcreating : ctx.creating = false)
      (hclause : ctx.inSupertypeClause = true) (hb : p.bounds.head? = some b)
      (ha : (lower b).answer? = some a) : WrittenView lower ctx p s a
  | object (hs : s = .bottom ∨ s.isComposite = true ∧ p.bounds.head? = none)
      (hcreating : ctx.creating = false) (hclause : ctx.inSupertypeClause = true) :
      WrittenView lower ctx p s .object
  | anyType (hs : s = .bottom) (hcreating : ctx.creating = false)
      (hclause : ctx.inSupertypeClause = false) : WrittenView lower ctx p s .anyType
  | exact {a : Target.Ty} (hs : s ≠ Language.voidTy) (hclause : ctx.inSupertypeClause = true)
      (ha : (lower s).answer? = some a) : WrittenView lower ctx p s a
  | wildcard {a : Target.Ty} (hs : s ≠ Language.voidTy) (hclause : ctx.inSupertypeClause = false)
      (ha : (lower s).answer? = some a) : WrittenView lower ctx p s (wildcard p.variance ctx a)

theorem exists_of_answer?_map {f : Target.Ty → Target.Ty} {x : TypeLowering Target.Ty}
    {a : Target.Ty} (h : ((fun w => some (f w)) <$> x).answer? = some (some a)) :
    ∃ w, x.answer? = some w ∧ f w = a := by
  rw [answer?_map, Option.map_eq_some_iff] at h
  obtain ⟨w, hw, ha⟩ := h
  exact ⟨w, hw, Option.some.inj ha⟩

theorem writtenView_of_answer {p : TypeParam} {s : Ty} {a : Target.Ty}
    (h : (viewedArgument lower ctx p s).answer? = some (some a)) :
    WrittenView lower ctx p s a := by
  unfold viewedArgument at h
  split at h
  · rename_i hvoid
    cases h
    exact .everything hvoid
  rename_i hvoid
  have hwildcard : ctx.inSupertypeClause ≠ true →
      ((fun w => some (TypeLowering.wildcard p.variance ctx w)) <$> lower s).answer? =
        some (some a) → WrittenView lower ctx p s a := by
    intro hclause hs
    obtain ⟨w, hw, rfl⟩ := exists_of_answer?_map hs
    exact .wildcard hvoid (by simpa using hclause) hw
  split at h
  · rename_i hnested
    have hcomposite : s ≠ .bottom → s.isComposite = true := by
      intro hbottom
      simp only [Bool.or_eq_true, decide_eq_true_eq, hbottom, false_or, Bool.and_eq_true]
        at hnested
      exact hnested.2
    split at h
    · cases h
    rename_i hcreating
    rw [Bool.not_eq_true] at hcreating
    split at h
    · rename_i hclause
      split at h
      · rename_i hbound
        split at h
        · rename_i hbottom
          obtain ⟨w, hw, rfl⟩ := exists_of_answer?_map (f := id) h
          exact .bound (hcomposite hbottom) hcreating hclause hbound hw
        · rename_i hbottom
          cases h
          exact .object (.inl (not_not.mp hbottom)) hcreating hclause
      · rename_i hbound
        cases h
        exact .object ((em (s = .bottom)).imp_right fun hbottom => ⟨hcomposite hbottom, hbound⟩)
          hcreating hclause
    · rename_i hclause
      split at h
      · rename_i hbottom
        cases h
        exact .anyType hbottom hcreating (by simpa using hclause)
      · exact hwildcard hclause h
  · split at h
    · rename_i hclause
      obtain ⟨w, hw, rfl⟩ := exists_of_answer?_map (f := id) h
      exact .exact hvoid hclause hw
    · rename_i hclause
      exact hwildcard hclause h

/-- Written arguments are what is written for the planned ones, one by one. -/
theorem forall₂_arguments {owner : Ty} {pairs : List (ParamId × Option Ty)}
    {ts : List Target.Ty} (h : (arguments m lower ctx owner pairs).answer? = some (some ts)) :
    List.Forall₂ (fun x a => (argument m lower ctx owner x.1 x.2).answer? = some (some a))
      pairs ts := by
  induction pairs generalizing ts with
  | nil =>
    cases h
    exact .nil
  | cons x rest ih =>
    unfold arguments at h
    obtain ⟨a, ha, h⟩ := answer?_bind.mp h
    cases a with
    | none => cases h
    | some a =>
      obtain ⟨o, ho, h⟩ := answer?_bind.mp h
      cases o with
      | none => cases h
      | some as =>
        cases h
        exact .cons ha (ih ho)

/-- A segment is raw, or carries what is written for the planned arguments. -/
theorem SegmentPlan.Fills.args {plan : SegmentPlan} {written : Target.Segment}
    (h : plan.Fills m lower ctx written) :
    written.args = [] ∨
      List.Forall₂ (fun x a => (argument m lower ctx plan.owner x.1 x.2).answer? = some (some a))
        plan.pairs written.args := by
  obtain ⟨_, o, ho, hargs⟩ := h
  rw [hargs]
  cases o with
  | none => exact .inl rfl
  | some ts => exact .inr (forall₂_arguments ho)

/-! ## Lowered types are names or class types -/

/-- What is written of a type that does not erase: its iterable shape, where it is
composite. -/
def shapeOf (m : Model) (t : Ty) : Ty :=
  if t.simplify.isComposite then (m.iterableShape? t).getD t else t

theorem isName_of_bareType {d : DeclId} {as : List Ty} {o : Option Ty} {hint : Option Hint}
    (h : (bareType m ctx (.nominal d as o hint)).answer? = some u) : u.isName = true := by
  unfold bareType at h
  dsimp only at h
  split at h <;> cases h <;> rfl

theorem isName_of_rawForm? {small : Bool} (h : rawForm? m small t = some u) :
    u.isName = true := by
  unfold rawForm? at h
  split_ifs at h <;> cases h <;> rfl

theorem writtenType_cases (h : (writtenType m lower ctx t).answer? = some u) :
    u.isName = true ∨ (classType m lower ctx (shapeOf m t)).answer? = some u := by
  unfold writtenType at h
  unfold shapeOf
  split at h
  · rename_i hcomposite
    rw [if_pos hcomposite]
    exact .inr h
  rename_i hcomposite
  rw [if_neg hcomposite]
  split at h
  · cases h
    exact .inl rfl
  split at h
  · split at h
    · rename_i hraw
      cases h
      exact .inl (isName_of_rawForm? hraw)
    · exact .inr h
  split at h
  · rw [classType_boolean] at h
    cases h
    exact .inl rfl
  · exact .inr h

/-- A lowered type is a name, or the class type of what is written of it. -/
theorem step_cases {given : Ty} (h : (step m lower ctx given).answer? = some (some u)) :
    u.isName = true ∨
      (classType m lower ctx (shapeOf m (resolveBound m ctx given.collapse))).answer? = some u := by
  by_cases herror : given.collapse = .error
  · rw [step_of_error herror] at h
    cases h
    exact .inl rfl
  cases herases : m.erasesToObject (resolveBound m ctx given.collapse) with
  | true =>
    rw [step_of_erases herases] at h
    split at h
    · cases h
    · cases h
      exact .inl rfl
  | false =>
    rw [step_of_not_erases herror herases, answer?_map, Option.map_eq_some_iff] at h
    obtain ⟨_, hwritten, hu⟩ := h
    cases hu
    exact writtenType_cases hwritten

end TypeLowering

end TreeLowering
