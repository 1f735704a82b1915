import TreeLowering.Proofs.CallableHeader
import TreeLowering.Proofs.Instantiation
import TreeLowering.Proofs.MethodHeader
import TreeLowering.Proofs.SegmentPlan
set_option autoImplicit false

/-!
# Proofs: type variables of a lowered type

Arguments are replaced on the way: by their iterable shape, which is found
through supertypes and through the bounds of type parameters, and in a clause
that names supertypes by the bound of the parameter that they are given for.
Supertypes are instantiated, so they bring no variable in.  Bounds are taken as
they are declared, and bring in what they mention.
-/

namespace TreeLowering

namespace Target.Ty

theorem vars_applied (base : Ty) (args : List Ty) :
    (base.applied args).vars = base.vars ++ varsAll args := by
  cases args with
  | nil => simp [applied, varsAll]
  | cons _ _ => simp [applied, vars]

/-- All type variables are in the arguments of segments. -/
def VarsInArgs (t : Ty) : Prop := t.vars = t.segments.flatMap fun w => varsAll w.args

theorem vars_of_isName {t : Ty} (h : t.isName = true) : t.vars = [] := by
  cases t with
  | primitive _ | cls _ | erroneous => rfl
  | member _ _ | apply _ _ | var _ | array _ | anyType | subtypeOf _ | supertypeOf _ =>
    contradiction

theorem varsInArgs_of_isName {t : Ty} (h : t.isName = true) : t.VarsInArgs := by
  rw [VarsInArgs, vars_of_isName h, eq_comm, List.flatMap_eq_nil_iff]
  intro w hw
  rw [args_of_isName h w hw]
  rfl

theorem varsInArgs_cls (name : String) (args : List Ty) :
    ((cls name).applied args).VarsInArgs := by
  rw [VarsInArgs, vars_applied, segments_applied_cls]
  simp [vars]

theorem VarsInArgs.member {outer : Ty} (h : outer.VarsInArgs) (name : String) (args : List Ty) :
    ((member outer name).applied args).VarsInArgs := by
  rw [VarsInArgs, vars_applied, segments_applied_member, List.flatMap_append, ← h]
  simp [vars]

end Target.Ty

namespace Model

variable {m : Model} {S V : ParamId → Prop}

/-! ## Declared types with all their arguments -/

/-- The type is fully applied if it is a class or interface. -/
def Applied (m : Model) (c : Ty) : Prop := c.decl?.isSome = true → m.FullyApplied c

instance (m : Model) (c : Ty) : Decidable (m.Applied c) :=
  inferInstanceAs (Decidable (_ → _))

/-- Declared supertypes and bounds are fully applied in all their parts, and
declared supertypes mention only type parameters of their declaration and of those
around it. -/
structure AppliedDeclarations (m : Model) : Prop where
  supertypes : ∀ d, ∀ s ∈ (m.decl d).supertypes, s.Every m.Applied
  bounds : ∀ p, ∀ b ∈ (m.param p).bounds, b.Every m.Applied
  inScope : ∀ d, ∀ s ∈ (m.decl d).supertypes, ∀ p, s.Mentions p → p ∈ m.singleParams d

/-- A finite check of the parameters that declared supertypes mention. -/
theorem inScope_of_range
    (h : ∀ i ∈ List.range m.declCount, ∀ s ∈ (m.decl ⟨i⟩).supertypes, ∀ c ∈ s.parts,
      c.isParam = true → c ∈ (m.singleParams ⟨i⟩).map .param) :
    ∀ d, ∀ s ∈ (m.decl d).supertypes, ∀ p, s.Mentions p → p ∈ m.singleParams d := by
  intro d s hs p hp
  simpa using h d.index (index_of_supertype hs) s hs _ hp rfl

/-- A finite check of the declared types. -/
theorem appliedDeclarations_of_range
    (hsupertypes : ∀ i ∈ List.range m.declCount, ∀ s ∈ (m.decl ⟨i⟩).supertypes, ∀ c ∈ s.parts,
      m.Applied c)
    (hbounds : ∀ i ∈ List.range m.paramCount, ∀ b ∈ (m.param ⟨i⟩).bounds, ∀ c ∈ b.parts,
      m.Applied c)
    (hscope : ∀ i ∈ List.range m.declCount, ∀ s ∈ (m.decl ⟨i⟩).supertypes, ∀ c ∈ s.parts,
      c.isParam = true → c ∈ (m.singleParams ⟨i⟩).map .param) : m.AppliedDeclarations where
  supertypes d s hs := hsupertypes d.index (index_of_supertype hs) s hs
  bounds p b hb := hbounds p.index (index_of_bound hb) b hb
  inScope := inScope_of_range hscope

/-- What is fully applied leaves no parameter open. -/
theorem AppliedDeclarations.closed (hm : m.AppliedDeclarations) {c : Ty} (hc : m.Applied c)
    (p : ParamId) : ¬ m.LeavesOpen c p := by
  rintro ⟨hnone, d, hd, s, hs, hp⟩
  have happlied : m.FullyApplied c := hc (by rw [hd]; rfl)
  obtain ⟨segment, hsegment, hbound⟩ :=
    List.mem_flatMap.mp (happlied.supplied d hd p (hm.inScope d s hs p hp))
  exact substitution_eq_none.mp hnone segment hsegment hbound

theorem AppliedDeclarations.every_within (hm : m.AppliedDeclarations) {t : Ty}
    (ht : t.Every m.Applied) (hV : ∀ p, t.Mentions p → V p) : t.Every (m.Within V) := by
  refine fun c hc => ⟨?_, fun p hp => absurd hp (hm.closed (ht c hc) p)⟩
  rintro p rfl
  exact hV p hc

/-- The parameter is in `S`, or in a bound of one that is, and so on. -/
inductive ThroughBounds (m : Model) (S : ParamId → Prop) : ParamId → Prop
  | given {p : ParamId} (h : S p) : ThroughBounds m S p
  | bound {p q : ParamId} {b : Ty} (h : ThroughBounds m S p) (hb : b ∈ (m.param p).bounds)
      (hq : b.Mentions q) : ThroughBounds m S q

/-- Declarations keep types within what bounds lead to. -/
theorem carries_throughBounds (hm : m.AppliedDeclarations) (S : ParamId → Prop) :
    m.Carries (m.Within (m.ThroughBounds S)) where
  toPartwise := Within.partwise m _
  iterable _ _ _ _ _ as' := .instantiation rfl as' _ none
  supertype d as o h ht s hs := by
    refine Ty.every_replace (fun p hp => ?_) fun b hb hparam => ⟨fun p hp => ?_, fun p hp => ?_⟩
    · cases hget : (m.substitution (.nominal d as o h)).get? p with
      | none => exact .ofParam (ht.self.leftOpen p ⟨hget, d, rfl, s, hs, hp⟩)
      | some u =>
        obtain ⟨segment, hsegment, hu⟩ := mem_args_of_substitution hget
        exact (ht.segment hsegment).arg hu
    · cases b <;> simp [Ty.replace, Ty.isParam] at hp hparam
    · exact absurd (hp.of_replace hparam) (hm.closed (hm.supertypes d s hs b hb) p)
  bound p hp b hb :=
    hm.every_within (hm.bounds p b hb) fun _ hq => (hp.param p rfl).bound hb hq

end Model

namespace TypeLowering

variable {m : Model} {lower : Ty → TypeLowering Target.Ty} {ctx : Context} {c : Chain} {t : Ty}
  {u : Target.Ty}

/-! ## Variables of a class type -/

theorem segmentType_varsInArgs {around : Target.Ty} {position : Nat} {segment : Ty}
    (haround : around.VarsInArgs)
    (h : (segmentType m lower ctx c around position segment).answer? = some u) :
    u.VarsInArgs := by
  cases segment with
  | nominal d as o hint =>
    obtain ⟨base, args, hbase, rfl⟩ := exists_segmentBase h
    rw [answer?_segmentBase] at hbase
    cases hbase
    split
    · exact Target.Ty.varsInArgs_cls _ _
    · exact haround.member _ _
  | union _ | inter _ | param _ | bottom | error =>
    cases h
    rfl

theorem chainType_varsInArgs {segments : List Ty} {position : Nat} {around : Target.Ty}
    (haround : around.VarsInArgs)
    (h : (chainType m lower ctx c position around segments).answer? = some u) :
    u.VarsInArgs := by
  induction segments generalizing position around with
  | nil =>
    cases h
    exact haround
  | cons segment rest ih =>
    obtain ⟨written, hwritten, hrest⟩ := answer?_bind.mp h
    exact ih (segmentType_varsInArgs haround hwritten) hrest

theorem liftedType_varsInArgs (hdecl : t.decl?.isSome = true)
    (h : (liftedType m lower ctx t).answer? = some u) : u.VarsInArgs := by
  obtain ⟨d, hd⟩ := Option.isSome_iff_exists.mp hdecl
  unfold liftedType at h
  obtain ⟨args, _, h⟩ := answer?_bind.mp h
  simp only [hd] at h
  split at h <;> cases h <;> exact Target.Ty.varsInArgs_cls _ _

theorem decl?_of_isLifted (h : isLifted m t = true) : t.decl?.isSome = true := by
  unfold isLifted at h
  cases hd : t.decl? with
  | none => simp [hd] at h
  | some d => rfl

theorem classType_of_param {p : ParamId} (h : t.simplify = .param p) :
    classType m lower ctx t = pure (.var (m.param p).name) := by
  simp [classType, h, Ty.segments, Ty.args, bareType]

theorem classType_varsInArgs (hparam : t.simplify.isParam = false)
    (h : (classType m lower ctx t).answer? = some u) : u.VarsInArgs := by
  unfold classType at h
  dsimp only at h
  split at h
  · split at h
    · rename_i hlifted
      exact liftedType_varsInArgs (decl?_of_isLifted hlifted) h
    split at h
    · exact segmentType_varsInArgs (Target.Ty.varsInArgs_of_isName rfl) h
    · exact chainType_varsInArgs (Target.Ty.varsInArgs_of_isName rfl) h
  · cases hsimple : t.simplify with
    | nominal d as o hint =>
      rw [hsimple] at h
      exact Target.Ty.varsInArgs_of_isName (isName_of_bareType h)
    | param _ =>
      rw [hsimple] at hparam
      contradiction
    | union _ | inter _ | bottom | error =>
      rw [hsimple] at h
      cases h
      rfl

theorem every_shapeOf {Q : Ty → Prop} (hm : m.Carries Q) (ht : t.Every Q) :
    (shapeOf m t).Every Q := by
  unfold shapeOf
  split
  · cases hshape : m.iterableShape? t with
    | none => exact ht
    | some shape => exact hm.iterableShape? ht hshape
  · exact ht

/-! ## Variables of an argument -/

/-- In a clause that names supertypes, the bound of the parameter is written in
place of the argument, which has no type of its own. -/
structure StandsIn (m : Model) (ctx : Context) (p : ParamId) (arg bound : Ty) : Prop where
  clause : ctx.inSupertypeClause = true
  notCreated : ctx.creating = false
  composite : arg.asArgument.isComposite = true
  shapeless : m.iterableShape? arg.asArgument = none
  bound : (m.param p).bounds.head? = some bound

/-- Only an argument without an iterable shape is seen as a union or
intersection. -/
theorem shapeless_of_view {arg s : Ty} (hview : ArgumentView.of m ctx arg = .as s)
    (hs : s.isComposite = true) :
    arg.asArgument.isComposite = true ∧ m.iterableShape? arg.asArgument = none := by
  rcases view_cases hview with ⟨_, shape, hshape, rfl⟩ | ⟨hshape, rfl⟩
  · obtain ⟨as, o, hint, rfl⟩ := Ty.isOf_iff.mp (Model.iterableShape?_isOf hshape)
    rw [Model.widenBoolean_shape hshape] at hs
    contradiction
  · have hcomposite : arg.asArgument.isComposite = true := by
      rcases Model.widenBoolean_cases m arg.asArgument with heq | heq
      · rwa [heq] at hs
      · rw [heq] at hs
        contradiction
    exact ⟨hcomposite, hshape hcomposite⟩

theorem vars_wildcard (v : Variance) (ctx : Context) (a : Target.Ty) :
    (wildcard v ctx a).vars = a.vars := by
  unfold wildcard
  split
  · rfl
  · cases v <;> simp [Target.Ty.vars]

theorem vars_voidArgument (ctx : Context) (v : Variance) : (voidArgument ctx v).vars = [] := by
  unfold voidArgument
  split
  · rfl
  · cases v <;> rfl

/-- The variables of a written argument are those of the type that the argument is
seen as, or of the bound that stands in for it. -/
theorem vars_of_argument {owner : Ty} {x : ParamId × Option Ty} {a : Target.Ty}
    (h : (argument m lower ctx owner x.1 x.2).answer? = some (some a)) {v : String}
    (hv : v ∈ a.vars) :
    ∃ arg ∈ x.2, ∃ s w, (lower s).answer? = some w ∧ v ∈ w.vars ∧
      (ArgumentView.of m ctx arg = .as s ∨ StandsIn m ctx x.1 arg s) := by
  obtain ⟨p, _ | arg⟩ := x
  · cases h
    cases hv
  refine ⟨arg, rfl, ?_⟩
  simp only [argument] at h
  split at h
  · cases h
  rename_i s hview
  cases writtenView_of_answer h with
  | everything _ =>
    rw [vars_voidArgument] at hv
    contradiction
  | bound hs hcreating hclause hb ha =>
    obtain ⟨hcomposite, hshape⟩ := shapeless_of_view hview hs
    exact ⟨_, a, ha, hv, .inr ⟨hclause, hcreating, hcomposite, hshape, hb⟩⟩
  | object _ _ _ | anyType _ _ _ => contradiction
  | exact _ _ ha => exact ⟨s, a, ha, hv, .inl hview⟩
  | wildcard _ _ ha =>
    rw [vars_wildcard] at hv
    exact ⟨s, _, ha, hv, .inl hview⟩

end TypeLowering

namespace Env

open TypeLowering

variable {env : Env} {ctx : Context} {t : Ty} {S : ParamId → Prop}

/-- An argument is lowered with variables of parameters in `V` only. -/
theorem argumentType_names {V : ParamId → Prop} (hm : env.model.Carries (env.model.Within V))
    (ht : t.Every (env.model.Within V)) {u : Target.Ty}
    (h : (argumentType env env.depth t).answer? = some u) : env.model.Names V u := by
  have hstep := answer?_argumentType h
  rw [← adjust_typeArgument] at hstep
  exact (lowerType_names hm ht rfl).answer hstep

/-- The variable is one of a bound that stands in for an argument of the type. -/
def StandInVar (env : Env) (ctx : Context) (t : Ty) (v : String) : Prop :=
  ∃ plan ∈ classPlan env.model (adjust env.config ctx) t.simplify, ∃ x ∈ plan.pairs,
    ∃ arg ∈ x.2, ∃ bound, StandsIn env.model (adjust env.config ctx) x.1 arg bound ∧
      ∃ u, (argumentType env env.depth bound).answer? = some u ∧ v ∈ u.vars

theorem classType_names {V : ParamId → Prop} (hm : env.model.Carries (env.model.Within V))
    (ht : t.Every (env.model.Within V)) {u : Target.Ty}
    (h : (classType env.model (argumentType env env.depth) (adjust env.config ctx) t).answer? =
      some u) {v : String} (hv : v ∈ u.vars) :
    (∃ p, V p ∧ (env.model.param p).name = v) ∨ env.StandInVar ctx t v := by
  have hsimple := hm.simplify ht
  cases hparam : t.simplify.isParam with
  | true =>
    obtain ⟨p, hp⟩ : ∃ p, t.simplify = .param p := by
      cases hsimple : t.simplify with
      | param p => exact ⟨p, rfl⟩
      | nominal _ _ _ _ | union _ | inter _ | bottom | error =>
        rw [hsimple] at hparam
        contradiction
    rw [classType_of_param hp] at h
    cases h
    exact .inl ⟨p, hsimple.self.param p hp, (List.mem_singleton.mp hv).symm⟩
  | false =>
    have hvars := classType_varsInArgs hparam h
    rw [hvars, List.mem_flatMap] at hv
    obtain ⟨w, hw, hv⟩ := hv
    obtain ⟨plan, hplan, hfills⟩ := exists_of_forall₂ (classType_fills h) hw
    rcases hfills.args with hraw | hargs
    · rw [hraw] at hv
      contradiction
    rw [Target.Ty.varsAll_eq_flatMap, List.mem_flatMap] at hv
    obtain ⟨a, ha, hv⟩ := hv
    obtain ⟨x, hx, hwritten⟩ := exists_of_forall₂ hargs ha
    obtain ⟨arg, harg, s, b, hb, hvb, hview | hbound⟩ := vars_of_argument hwritten hv
    · obtain ⟨p, arg?⟩ := x
      cases harg
      obtain ⟨segment, hsegment, hmem⟩ := mem_args_of_classPlan hplan hx
      have hs := every_of_view hm ((hsimple.segment hsegment).arg hmem) hview
      exact .inl (argumentType_names hm hs hb v hvb)
    · exact .inr ⟨plan, hplan, x, hx, arg, harg, s, hbound, b, hb, hvb⟩

/-- Where declared supertypes and bounds are fully applied, a fully applied type is
lowered, at every position, with no variable but those of the type parameters that it
mentions, of the ones that their bounds mention, and so on.  Apart from these are the
variables of bounds that stand in for arguments in a clause that names supertypes. -/
theorem lowerType?_vars (env : Env) {ctx : Context} {t : Ty} (hm : env.model.AppliedDeclarations)
    (ht : t.Every env.model.Applied) {u : Target.Ty}
    (h : (env.lowerType? t ctx).answer? = some (some u)) :
    ∀ v ∈ u.vars, (∃ p, env.model.ThroughBounds t.Mentions p ∧ (env.model.param p).name = v) ∨
      env.StandInVar ctx (shapeOf env.model (resolveBound env.model ctx t.collapse)) v := by
  intro v hv
  have hcarries := Model.carries_throughBounds hm t.Mentions
  have hwithin : t.Every (env.model.Within (env.model.ThroughBounds t.Mentions)) :=
    hm.every_within ht fun _ hp => .given hp
  rcases step_cases h with hname | hclass
  · rw [Target.Ty.vars_of_isName hname] at hv
    contradiction
  · rw [resolveBound_adjust] at hclass
    exact classType_names hcarries
      (every_shapeOf hcarries (every_resolveBound hcarries hwithin.collapse)) hclass hv

/-- A class `C<T, U>` given `T satisfies Iterable<U>`. -/
def boundElement : Model where
  decls := #[{ Declaration.bare "C" .cls "demo" none with typeParams := [⟨10⟩, ⟨11⟩] }]
  params := #[⟨"T", .invariant, [.of Language.iterable [.param ⟨11⟩]], ⟨22⟩, false⟩,
    ⟨"U", .invariant, [], ⟨22⟩, false⟩]

/-- The type `T & Identifiable` is lowered as the iterables of `U`, which the bound of
`T` mentions. -/
theorem boundElement_named :
    boundElement.AppliedDeclarations ∧
      (Ty.inter [.param ⟨10⟩, Language.identifiableTy]).Every boundElement.Applied ∧
      ∃ u, ((Env.of boundElement .standard).lowerType?
          (.inter [.param ⟨10⟩, Language.identifiableTy]) .plain).answer? = some (some u) ∧
        u.vars = ["U"] ∧
        ∃ p, boundElement.ThroughBounds
            (Ty.inter [.param ⟨10⟩, Language.identifiableTy]).Mentions p ∧
          (boundElement.param p).name = "U" := by
  have hm : boundElement.AppliedDeclarations :=
    Model.appliedDeclarations_of_range (by decide) (by decide) (by decide)
  have ht : (Ty.inter [.param ⟨10⟩, Language.identifiableTy]).Every boundElement.Applied := by
    unfold Ty.Every
    decide
  have hlowered : ((Env.of boundElement .standard).lowerType?
      (.inter [.param ⟨10⟩, Language.identifiableTy]) .plain).answer? =
        some (some (.apply (.cls "vela.language.Iterable") [.subtypeOf (.var "U")])) := by
    decide
  refine ⟨hm, ht, _, hlowered, rfl, ?_⟩
  rcases lowerType?_vars (Env.of boundElement .standard) hm ht hlowered "U" (by decide) with
    hnamed | ⟨_, _, _, _, _, _, _, hstands, _⟩
  · exact hnamed
  · exact absurd hstands.clause (by decide)

/-- A type is lowered with a variable that names none of the type parameters in it. -/
def BringsVar (env : Env) (t : Ty) (ctx : Context) : Prop :=
  ∃ u, (env.lowerType? t ctx).answer? = some (some u) ∧
    ∃ v ∈ u.vars, ∀ p, t.Mentions p → (env.model.param p).name ≠ v

/-- A class `C<T, U>` given `T satisfies Iterable<U>`; an interface
`I<X> satisfies Iterable<X>`, and a class `D` that satisfies `I` without an argument;
interfaces `Cmp<in Y>` and `Ordered<B>` given `B satisfies Cmp<B>`. -/
def foreignVars : Model where
  decls := #[
    { Declaration.bare "C" .cls "demo" none with typeParams := [⟨10⟩, ⟨11⟩] },
    { Declaration.bare "I" .iface "demo" none with
      typeParams := [⟨12⟩], satisfied := [.of Language.iterable [.param ⟨12⟩]] },
    { Declaration.bare "D" .cls "demo" none with satisfied := [.of ⟨23⟩ []] },
    { Declaration.bare "Cmp" .iface "demo" none with typeParams := [⟨13⟩] },
    { Declaration.bare "Ordered" .iface "demo" none with typeParams := [⟨14⟩] }]
  params := #[⟨"T", .invariant, [.of Language.iterable [.param ⟨11⟩]], ⟨22⟩, false⟩,
    ⟨"U", .invariant, [], ⟨22⟩, false⟩, ⟨"X", .invariant, [], ⟨23⟩, false⟩,
    ⟨"Y", .contravariant, [], ⟨25⟩, false⟩,
    ⟨"B", .invariant, [.of ⟨25⟩ [.param ⟨14⟩]], ⟨26⟩, false⟩]

/-- Fully applied types are lowered with foreign variables: with `U` of the bound of
`T`, with `X` of a supertype that is incomplete, and with `B` of a bound that stands in
for an argument. -/
theorem foreignVars_brought :
    (∀ d, ∀ s ∈ (foreignVars.decl d).supertypes, ∀ p, s.Mentions p →
        p ∈ foreignVars.singleParams d) ∧
      (Ty.inter [.param ⟨10⟩, Language.identifiableTy]).Every foreignVars.Applied ∧
      (Ty.inter [.of ⟨24⟩ [], Language.identifiableTy]).Every foreignVars.Applied ∧
      (Ty.of ⟨26⟩ [.union [Language.integerTy, Language.stringTy]]).Every foreignVars.Applied ∧
      BringsVar (Env.of foreignVars .standard) (.inter [.param ⟨10⟩, Language.identifiableTy])
        .plain ∧
      BringsVar (Env.of foreignVars .standard) (.inter [.of ⟨24⟩ [], Language.identifiableTy])
        .plain ∧
      BringsVar (Env.of foreignVars .standard)
        (.of ⟨26⟩ [.union [Language.integerTy, Language.stringTy]]) .inSatisfies := by
  refine ⟨Model.inScope_of_range (by decide), by unfold Ty.Every; decide,
    by unfold Ty.Every; decide, by unfold Ty.Every; decide, ?_, ?_, ?_⟩
  · refine ⟨.apply (.cls "vela.language.Iterable") [.subtypeOf (.var "U")], rfl, "U", by decide,
      fun p hp => ?_⟩
    have honly : ∀ c ∈ (Ty.inter [.param ⟨10⟩, Language.identifiableTy]).parts, c.isParam = true →
        c = .param ⟨10⟩ := by decide
    cases honly _ hp rfl
    decide
  · refine ⟨.apply (.cls "vela.language.Iterable") [.subtypeOf (.var "X")], rfl, "X", by decide,
      fun p hp => ?_⟩
    have hnone : ∀ c ∈ (Ty.inter [.of ⟨24⟩ [], Language.identifiableTy]).parts,
        c.isParam = false := by decide
    cases hnone _ hp
  · refine ⟨.apply (.cls "demo.Ordered") [.apply (.cls "demo.Cmp") [.supertypeOf (.var "B")]],
      rfl, "B", by decide, fun p hp => ?_⟩
    have hnone : ∀ c ∈ (Ty.of ⟨26⟩ [.union [Language.integerTy, Language.stringTy]]).parts,
        c.isParam = false := by decide
    cases hnone _ hp

end Env

end TreeLowering
