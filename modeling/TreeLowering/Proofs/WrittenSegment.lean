import TreeLowering.Proofs.SegmentPlan
import Mathlib.Data.Nat.Find
set_option autoImplicit false

/-!
# Proofs: which segments carry arguments

Of the segments of a class that is no interface, those outside the innermost
static one carry no arguments.  Each of the others carries the arguments of its
own declaration, unless these force it raw.
-/

namespace TreeLowering

namespace TypeLowering

variable {m : Model} {lower : Ty → TypeLowering Target.Ty} {ctx : Context} {c : Chain} {t : Ty}
  {u : Target.Ty}

/-! ## Segments with arguments -/

/-- What is written for the arguments of a segment's own declaration. -/
def ownArguments (m : Model) (lower : Ty → TypeLowering Target.Ty) (ctx : Context)
    (segment : Ty) : TypeLowering (Option (List Target.Ty)) :=
  typeArguments m lower ctx segment.isCallable segment (flatArguments m [segment])

/-- A segment's own arguments force it raw. -/
def ForcedRaw (m : Model) (lower : Ty → TypeLowering Target.Ty) (ctx : Context) (segment : Ty) :
    Prop :=
  (ownArguments m lower ctx segment).answer? = some none

/-- A segment's declaration has type parameters. -/
def isGenericSegment (m : Model) (segment : Ty) : Bool :=
  segment.decl?.any fun d => !(m.decl d).typeParams.isEmpty

theorem args_ne_nil_iff {position : Nat} {segment : Ty} {plan : SegmentPlan}
    {written : Target.Segment} (hplan : segmentPlan? m ctx c position segment = some plan)
    (h : plan.Fills m lower ctx written) :
    written.args ≠ [] ↔ c.firstWithArgs ≤ position ∧ isGenericSegment m segment = true ∧
      ¬ ForcedRaw m lower ctx segment := by
  cases segment with
  | nominal d as o hint =>
    cases hplan
    obtain ⟨_, args, hargs, hwritten⟩ := h
    rw [hwritten]
    unfold segmentPairs at hargs
    by_cases hcarries : c.firstWithArgs ≤ position
    · have hown : (ownArguments m lower ctx (.nominal d as o hint)).answer? = some args := by
        rwa [if_pos hcarries] at hargs
      rw [ForcedRaw, hown]
      cases args with
      | none => simp
      | some ts =>
        have hparams : (flatArguments m [.nominal d as o hint]).length =
            (m.decl d).typeParams.length := by
          have hflat : flatArguments m [.nominal d as o hint] = segmentArguments m d as :=
            List.append_nil _
          rw [hflat, ← List.length_map Prod.fst, segmentArguments, map_fst_pairArguments]
        have hlength := length_typeArguments hown
        rw [hparams] at hlength
        simp only [Option.getD_some, hcarries, isGenericSegment, Ty.decl?, Option.any_some,
          true_and, Option.some.injEq, reduceCtorEq, not_false_eq_true, and_true,
          Bool.not_eq_true', List.isEmpty_eq_false_iff, ← List.length_pos_iff, hlength]
        split <;> omega
    · rw [if_neg hcarries] at hargs
      cases hargs
      simp [hcarries]
  | union _ | inter _ | param _ | bottom | error => contradiction

theorem chainPlan_of_nominal {segments : List Ty} (h : ∀ s ∈ segments, s.decl?.isSome = true) :
    segments.reverse.zipIdx.map (fun x => segmentPlan? m ctx c x.2 x.1) =
      (chainPlan m ctx c segments).map some := by
  induction segments with
  | nil => rfl
  | cons segment rest ih =>
    rw [List.forall_mem_cons] at h
    obtain ⟨d, hd⟩ := Option.isSome_iff_exists.mp h.1
    have hplan : segmentPlan? m ctx c rest.length segment = some
        ⟨segmentName m ctx c rest.length d, segment, segmentPairs m c rest.length segment⟩ := by
      rw [segmentPlan?, hd]
      rfl
    rw [chainPlan, hplan, List.reverse_cons, List.zipIdx_append, List.map_append, ih h.2]
    simp [hplan]

/-- A chain of classes and interfaces has a segment for each of them, outermost
first, and what a segment carries depends on its own arguments. -/
theorem chainType_written {segments : List Ty} (hsegments : ∀ s ∈ segments, s.decl?.isSome = true)
    (hcallable : 1 < segments.length → c.whole.isCallable = false)
    (h : (chainType m lower ctx c 0 .erroneous segments.reverse).answer? = some u) :
    List.Forall₂
      (fun x written => (∃ d ∈ x.1.decl?, written.name = segmentName m ctx c x.2 d) ∧
        (written.args ≠ [] ↔ c.firstWithArgs ≤ x.2 ∧ isGenericSegment m x.1 = true ∧
          ¬ ForcedRaw m lower ctx x.1))
      segments.reverse.zipIdx u.segments := by
  have hplanned : List.Forall₂ (fun plan? written => ∃ plan ∈ plan?, plan.Fills m lower ctx written)
      (segments.reverse.zipIdx.map fun x => segmentPlan? m ctx c x.2 x.1) u.segments := by
    rw [chainPlan_of_nominal hsegments, List.forall₂_map_left_iff]
    exact (chainType_fills hcallable h).imp fun plan _ hfills => ⟨plan, rfl, hfills⟩
  rw [List.forall₂_map_left_iff] at hplanned
  refine hplanned.imp ?_
  rintro x written ⟨plan, hplan, hfills⟩
  refine ⟨?_, args_ne_nil_iff hplan hfills⟩
  obtain ⟨d, hd, rfl⟩ := Option.map_eq_some_iff.mp hplan
  exact ⟨d, hd, hfills.1⟩

theorem answers_segmentType (around : Target.Ty) {position : Nat} {segment : Ty}
    (hsegment : segment.decl?.isSome = true) :
    (segmentType m lower ctx c around position segment).answers = true ↔
      (c.firstWithArgs ≤ position → (ownArguments m lower ctx segment).answers = true) := by
  cases segment with
  | nominal d as o hint =>
    have hflat : flatArguments m [.nominal d as o hint] = segmentArguments m d as :=
      List.append_nil _
    have hdone : ∀ args : Option (List Target.Ty),
        (segmentBase m ctx c around position d >>= fun base =>
          pure (Target.Ty.applied base (args.getD []))).answers = true := by
      intro args
      rw [answers_bind]
      exact ⟨_, answer?_segmentBase around position d, rfl⟩
    unfold segmentType ownArguments
    by_cases hcarries : c.firstWithArgs ≤ position
    · simp only [hcarries, if_true, hflat, true_imp_iff]
      rw [answers_bind, answers, Option.isSome_iff_exists]
      constructor
      · rintro ⟨args, hargs, _⟩
        exact ⟨args, hargs⟩
      · rintro ⟨args, hargs⟩
        exact ⟨args, hargs, hdone args⟩
    · simp only [hcarries, if_false, pure_bind, false_imp_iff, iff_true]
      exact hdone none
  | union _ | inter _ | param _ | bottom | error => contradiction

theorem answers_chainType {segments : List Ty} (h : ∀ s ∈ segments, s.decl?.isSome = true)
    (position : Nat) (around : Target.Ty) :
    (chainType m lower ctx c position around segments).answers = true ↔
      ∀ x ∈ segments.zipIdx position, c.firstWithArgs ≤ x.2 →
        (ownArguments m lower ctx x.1).answers = true := by
  induction segments generalizing position around with
  | nil => simp [chainType]
  | cons segment rest ih =>
    rw [List.forall_mem_cons] at h
    rw [chainType, answers_bind, List.zipIdx_cons, List.forall_mem_cons,
      ← answers_segmentType around h.1]
    simp only [ih h.2]
    rw [exists_and_right, answers, Option.isSome_iff_exists]

/-! ## The innermost static segment -/

/-- Position of the innermost static segment in segments that are given outermost
first, and of the outermost segment when none is static. -/
def innermostStatic (m : Model) (segments : List Ty) : Nat :=
  Nat.findGreatest (fun i => ∃ s ∈ segments[i]?, isStaticSegment m s = true) segments.length

theorem length_takeWhile_static (m : Model) (segments : List Ty) :
    (segments.takeWhile fun s => !isStaticSegment m s).length =
      segments.findIdx (isStaticSegment m) := by
  rw [List.takeWhile_eq_take_findIdx_not, List.length_take]
  simp only [Bool.not_not]
  exact Nat.min_eq_left List.findIdx_le_length

theorem firstWithArgs_eq (m : Model) (t : Ty) :
    (Chain.of m t).firstWithArgs = innermostStatic m t.segments.reverse := by
  have hfirst : (Chain.of m t).firstWithArgs =
      t.segments.length - 1 - t.segments.findIdx (isStaticSegment m) := by
    rw [← length_takeWhile_static]
    rfl
  have hpos : 0 < t.segments.length := List.length_pos_iff.mpr t.segments_ne_nil
  rw [eq_comm, innermostStatic, hfirst, List.length_reverse, Nat.findGreatest_eq_iff]
  refine ⟨by omega, fun hinner => ?_, ?_⟩
  · -- the count from the inside ends at a static segment
    have hend : t.segments.findIdx (isStaticSegment m) < t.segments.length := by omega
    refine ⟨_, ?_, List.findIdx_getElem (w := hend)⟩
    rw [List.getElem?_reverse (by omega), Option.mem_def, List.getElem?_eq_some_iff]
    exact ⟨by omega, by congr 1; omega⟩
  · -- and it does not end before
    rintro i hi hlast ⟨s, hs, hstatic⟩
    obtain ⟨hlength, rfl⟩ := List.getElem?_eq_some_iff.mp hs
    rw [List.length_reverse] at hlength
    have hbefore : t.segments.length - 1 - i < t.segments.findIdx (isStaticSegment m) := by omega
    rw [List.getElem_reverse, List.not_of_lt_findIdx hbefore] at hstatic
    contradiction

/-- A class that is no interface is written with a segment for each class or
interface of its chain, outermost first, whenever the arguments of the segments
from the innermost static one on are written.  A segment carries arguments exactly
when it is not outside the innermost static one, its declaration has type
parameters and its arguments do not force it raw. -/
theorem classType_segments_iff (m : Model) (lower : Ty → TypeLowering Target.Ty) (ctx : Context)
    (t : Ty) (hraw : ctx.raw = false) (hqualified : ctx.simpleName = false)
    (hsegments : ∀ s ∈ t.simplify.segments, s.decl?.isSome = true)
    (hargs : ∃ s ∈ t.simplify.segments, s.args ≠ [])
    (hclass : ∀ d ∈ t.simplify.decl?, (m.decl d).isInterface = false) :
    ((classType m lower ctx t).answers = true ↔
      ∀ x ∈ t.simplify.segments.reverse.zipIdx,
        innermostStatic m t.simplify.segments.reverse ≤ x.2 →
          (ownArguments m lower ctx x.1).answers = true) ∧
      ∀ u, (classType m lower ctx t).answer? = some u →
        List.Forall₂
          (fun x written =>
            (∃ d ∈ x.1.decl?, written.name = segmentName m ctx (Chain.of m t.simplify) x.2 d) ∧
              (written.args ≠ [] ↔ innermostStatic m t.simplify.segments.reverse ≤ x.2 ∧
                isGenericSegment m x.1 = true ∧ ¬ ForcedRaw m lower ctx x.1))
          t.simplify.segments.reverse.zipIdx u.segments := by
  have hlifted := not_lifted_of_class hclass
  have hchain : classType m lower ctx t =
      chainType m lower ctx (Chain.of m t.simplify) 0 .erroneous t.simplify.segments.reverse := by
    have hany : t.simplify.segments.any (fun s => !s.args.isEmpty) = true := by
      simpa [List.any_eq_true] using hargs
    simp [classType, hraw, hany, hlifted, hqualified]
  rw [hchain, ← firstWithArgs_eq]
  exact ⟨answers_chainType (by simpa using hsegments) 0 .erroneous,
    fun u hu => chainType_written hsegments (not_callable_of_not_lifted hlifted) hu⟩

/-- A class `A<T>`, a static class `B<S>` in it and in that a class `C<R>`. -/
def staticClasses : Model where
  decls := #[
    { Declaration.bare "A" .cls "demo" none with typeParams := [⟨10⟩] },
    { Declaration.bare "B" .cls "demo" (some ⟨22⟩) with
      typeParams := [⟨11⟩], flags := { isStatic := true } },
    { Declaration.bare "C" .cls "demo" (some ⟨23⟩) with typeParams := [⟨12⟩] }]
  params := #[⟨"T", .invariant, [], ⟨22⟩, false⟩, ⟨"S", .invariant, [], ⟨23⟩, false⟩,
    ⟨"R", .invariant, [], ⟨24⟩, false⟩]

/-- The type `A<String>.B<Integer>.C<String>` of `staticClasses`. -/
def staticMember : Ty :=
  .nominal ⟨24⟩ [Language.stringTy]
    (some (.nominal ⟨23⟩ [Language.integerTy] (some (.of ⟨22⟩ [Language.stringTy])) none)) none

/-- The arguments of `A` are cut off, and those of the static `B` are not. -/
theorem staticMember_segments :
    Context.plain.raw = false ∧ Context.plain.simpleName = false ∧
      (∀ s ∈ staticMember.simplify.segments, s.decl?.isSome = true) ∧
      (∃ s ∈ staticMember.simplify.segments, s.args ≠ []) ∧
      (∀ d ∈ staticMember.simplify.decl?, (staticClasses.decl d).isInterface = false) ∧
      ∃ u a b c, (classType staticClasses (argumentType (Env.of staticClasses .standard) 1) .plain
          staticMember).answer? = some u ∧
        u.segments = [a, b, c] ∧ a.args = [] ∧ b.args ≠ [] ∧ c.args ≠ [] := by
  have hsegments : ∀ s ∈ staticMember.simplify.segments, s.decl?.isSome = true := by decide
  have hargs : ∃ s ∈ staticMember.simplify.segments, s.args ≠ [] := by decide
  have hclass : ∀ d ∈ staticMember.simplify.decl?,
      (staticClasses.decl d).isInterface = false := by decide
  have hraw : Context.plain.raw = false := rfl
  have hqualified : Context.plain.simpleName = false := rfl
  obtain ⟨hanswers, hwritten⟩ := classType_segments_iff staticClasses
    (argumentType (Env.of staticClasses .standard) 1) .plain staticMember hraw hqualified hsegments
    hargs hclass
  have hstatic : innermostStatic staticClasses staticMember.simplify.segments.reverse = 1 := by
    decide
  obtain ⟨u, hu⟩ := Option.isSome_iff_exists.mp (hanswers.mpr (by decide))
  have hchain : staticMember.simplify.segments.reverse.zipIdx =
      [(.of ⟨22⟩ [Language.stringTy], 0),
        (.nominal ⟨23⟩ [Language.integerTy] (some (.of ⟨22⟩ [Language.stringTy])) none, 1),
        (staticMember, 2)] := rfl
  have hsegment := hwritten u hu
  rw [hchain, hstatic] at hsegment
  obtain ⟨a, _, ha, htail, habc⟩ := List.forall₂_cons_left_iff.mp hsegment
  obtain ⟨b, _, hb, hlast, rfl⟩ := List.forall₂_cons_left_iff.mp htail
  obtain ⟨c, _, hc, hnone, rfl⟩ := List.forall₂_cons_left_iff.mp hlast
  cases hnone
  refine ⟨hraw, hqualified, hsegments, hargs, hclass, u, a, b, c, hu, habc, ?_, ?_, ?_⟩
  · exact not_not.mp fun hcarries => absurd (ha.2.mp hcarries).1 (by decide)
  · exact hb.2.mpr ⟨le_rfl, rfl, by unfold ForcedRaw; decide⟩
  · exact hc.2.mpr ⟨by decide, rfl, by unfold ForcedRaw; decide⟩

end TypeLowering

end TreeLowering
