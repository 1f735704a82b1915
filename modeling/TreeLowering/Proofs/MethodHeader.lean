import TreeLowering.Backend
import TreeLowering.Proofs.ParameterScope
import TreeLowering.Proofs.Yield
import Mathlib.Data.List.Forall2
set_option autoImplicit false

/-!
# Proofs: type variables of a method header

A lowered type holds only variables of parameters that its parts mention or
lead to.  The header of a method takes the bounds of a type parameter, and its
result type, from a refined declaration where its own would widen them.  The
parameters of that declaration are not renamed, so they come into the header
unless the type that the member is seen through instantiates them.  Nothing else
that is out of scope comes in, apart from what incomplete types leave open.
-/

namespace TreeLowering

namespace Target

namespace Ty

mutual

/-- The names of the type variables in a type. -/
def vars : Ty → List String
  | var name => [name]
  | member outer _ => vars outer
  | apply base args => vars base ++ varsAll args
  | subtypeOf bound => vars bound
  | supertypeOf bound => vars bound
  | array element => vars element
  | primitive _ | cls _ | anyType | erroneous => []

/-- The names of the type variables in several types. -/
def varsAll : List Ty → List String
  | [] => []
  | t :: ts => vars t ++ varsAll ts

end

theorem varsAll_eq_flatMap (ts : List Ty) : varsAll ts = ts.flatMap vars := by
  induction ts with
  | nil => rfl
  | cons t ts ih => rw [varsAll, ih, List.flatMap_cons]

end Ty

namespace Method

/-- Type parameters of a method. -/
def typeParams : Method → List TypeParam
  | mk _ typeParams _ _ _ _ => typeParams

/-- Parameters of a method. -/
def params : Method → List Param
  | mk _ _ _ _ params _ => params

/-- The names of the type variables in what comes before the body: the bounds of
type parameters, the result type and the types of parameters. -/
def headerVars (method : Method) : List String :=
  method.typeParams.flatMap (fun x => Ty.varsAll x.bounds) ++ method.result.vars ++
    method.params.flatMap fun x => x.ty.vars

end Method

end Target

namespace Model

variable {m : Model} {V : ParamId → Prop}

/-- All variables in the type are names of parameters in `V`. -/
def Names (m : Model) (V : ParamId → Prop) (t : Target.Ty) : Prop :=
  ∀ v ∈ t.vars, ∃ p, V p ∧ (m.param p).name = v

theorem Names.all {ts : List Target.Ty} (h : ∀ t ∈ ts, m.Names V t) :
    ∀ v ∈ Target.Ty.varsAll ts, ∃ p, V p ∧ (m.param p).name = v := by
  intro v hv
  rw [Target.Ty.varsAll_eq_flatMap] at hv
  obtain ⟨t, ht, hvt⟩ := List.mem_flatMap.mp hv
  exact h t ht v hvt

theorem Names.mono {W : ParamId → Prop} {t : Target.Ty} (h : m.Names V t) (hVW : ∀ p, V p → W p) :
    m.Names W t := fun v hv => by
  obtain ⟨p, hp, hname⟩ := h v hv
  exact ⟨p, hVW p hp, hname⟩

theorem names_of_isPrimitive {t : Target.Ty} (h : t.isPrimitive = true) : m.Names V t := by
  cases t with
  | primitive p => simp [Names, Target.Ty.vars]
  | cls _ | member _ _ | apply _ _ | anyType | subtypeOf _ | supertypeOf _ | var _ | array _
  | erroneous => contradiction

/-! ## What a header takes from elsewhere -/

/-- The result type that a method declares mentions the parameter, and the
reference that it is taken from does not instantiate it. -/
def ResultBrings (m : Model) (d : DeclId) (p : ParamId) : Prop :=
  m.Uninstantiated (m.nonWideningRef (m.ownRef d)) p

/-- The bounds that a type parameter takes from a refined method mention the
parameter. -/
def BoundsBring (m : Model) (q p : ParamId) : Prop :=
  ∃ source ∈ m.boundsSource? q, ∃ b ∈ (m.param source).bounds, b.Mentions p

/-- A type parameter keeps its name.  Its bounds name what is in scope of its
declaration and what the refined parameter's bounds bring, and a bound that is a
type parameter itself is written as its variable. -/
structure TypeParamNames (m : Model) (d : DeclId) (q : ParamId) (x : Target.TypeParam) : Prop where
  name : x.name = (m.param q).name
  bounds : ∀ b ∈ x.bounds, m.Names (m.Admits d (m.BoundsBring q)) b
  foreign : ∀ source ∈ m.boundsSource? q, ∀ p, .param p ∈ (m.param source).bounds →
    .var (m.param p).name ∈ x.bounds

/-- What the header of a method names: in the types of parameters what is in
scope, and in the result and in each bound what these bring as well. -/
structure HeaderNames (m : Model) (d : DeclId) (method : Target.Method) : Prop where
  typeParams : List.Forall₂ (m.TypeParamNames d) (m.decl d).typeParams method.typeParams
  result : m.Names (m.Admits d (m.ResultBrings d)) method.result
  params : ∀ x ∈ method.params, m.Names (m.Admits d fun _ => False) x.ty

/-- Every type variable of the header is the name of a type parameter in
scope. -/
def HeaderClosed (m : Model) (d : DeclId) (method : Target.Method) : Prop :=
  ∀ v ∈ method.headerVars, ∃ p, m.InScope d p ∧ (m.param p).name = v

theorem ResultBrings.exists_own (hm : m.Scoped) {d : DeclId} {p : ParamId}
    (h : m.ResultBrings d p) : ∃ e, p ∈ (m.decl e).typeParams := by
  obtain ⟨⟨t, ht, hp⟩, _⟩ := h
  exact (hm _ t (mem_declaredTypes_of_ty ht) p hp).exists_own

theorem own_of_boundsSource? {p source : ParamId} (h : m.boundsSource? p = some source) :
    ∃ refined ∈ (m.decl (m.param p).owner).refined, source ∈ (m.decl refined).typeParams := by
  unfold boundsSource? at h
  dsimp only at h
  split at h
  · contradiction
  · split at h
    · rename_i refined position hrefined _
      split at h
      · rename_i q hq
        split at h
        · contradiction
        · cases h
          exact ⟨refined, hrefined, List.mem_of_getElem? hq⟩
      · contradiction
    · contradiction

theorem BoundsBring.exists_own (hm : m.Scoped) {q p : ParamId} (h : m.BoundsBring q p) :
    ∃ e, p ∈ (m.decl e).typeParams := by
  obtain ⟨source, hsource, b, hb, hp⟩ := h
  obtain ⟨refined, _, hown⟩ := own_of_boundsSource? hsource
  exact (hm refined b (mem_declaredTypes_of_bound hown hb) p hp).exists_own

/-- The bounds that a type parameter is emitted with. -/
theorem every_emittedBounds (hm : m.Scoped) {d : DeclId} {q : ParamId}
    (hq : q ∈ (m.decl d).typeParams) :
    ∀ b ∈ m.emittedBounds q, b.Every (m.Within (m.Admits d (m.BoundsBring q))) := by
  intro b hb
  have hmem := (List.mem_filter.mp hb).1
  have hopen : ∀ p, m.LeftOpen p → m.Admits d (m.BoundsBring q) p :=
    fun _ hp => .inr (.leftOpen hp)
  cases hsource : m.boundsSource? q with
  | none =>
    rw [hsource, Option.getD_none] at hmem
    have hdeclared := mem_declaredTypes_of_bound hq hmem
    exact every_of_declared hopen hdeclared fun p hp => .inl (hm d b hdeclared p hp)
  | some source =>
    rw [hsource, Option.getD_some] at hmem
    obtain ⟨refined, _, hown⟩ := own_of_boundsSource? hsource
    exact every_of_declared hopen (mem_declaredTypes_of_bound hown hmem) fun p hp =>
      .inr (.given ⟨source, hsource, b, hmem, hp⟩)

/-- The result type that a method declares. -/
theorem every_resultType (hm : m.Scoped) (d : DeclId) :
    (m.resultType d).Every (m.Within (m.Admits d (m.ResultBrings d))) :=
  every_refType (fun _ hp => .inr (.leftOpen hp))
    (nonWideningRef_seenWithin hm d fun _ hp => ResultBrings.exists_own hm hp)
    fun _ hp => .inr (.given hp)

/-- The declared types of parameters. -/
theorem every_parameter (hm : m.Scoped) {d : DeclId} {S : ParamId → Prop} {list : List Parameter}
    {x : Parameter} (hlist : list ∈ (m.decl d).paramLists) (hx : x ∈ list) :
    x.ty.Every (m.Within (m.Admits d S)) :=
  have hdeclared := mem_declaredTypes_of_parameter hlist hx
  every_of_declared (fun _ hp => .inr (.leftOpen hp)) hdeclared fun p hp =>
    .inl (hm d x.ty hdeclared p hp)

theorem every_curried {t : Ty} {lists : List (List Parameter)} (ht : t.Every (m.Within V))
    (hlists : ∀ list ∈ lists, ∀ x ∈ list, x.ty.Every (m.Within V)) :
    (t.curried lists).Every (m.Within V) := by
  induction lists with
  | nil => exact ht
  | cons list lists ih =>
    refine Ty.every_nominal.mpr ⟨.instantiation rfl _ none none, ?_, by simp⟩
    rintro a (_ | ⟨_, ha⟩)
    · exact ih fun list' hlist' => hlists list' (List.mem_cons_of_mem _ hlist')
    · obtain ⟨x, hx, rfl⟩ := List.mem_map.mp ha
      exact hlists list List.mem_cons_self x hx

end Model

/-! ## Lowered types -/

namespace TypeLowering

variable {m : Model} {V : ParamId → Prop}

/-- Types are put together without variables of their own. -/
theorem names_formation : Formation (fun _ => False) (m.Names V) (m.Names V) where
  toExcuse := .never
  cls _ := by simp [Model.Names, Target.Ty.vars]
  member _ _ h := h
  apply base args _ hbase _ hargs := by
    intro v hv
    rw [Target.Ty.vars] at hv
    exact (List.mem_append.mp hv).elim (hbase v) (Model.Names.all hargs v)
  argument _ h := h
  anyType := by simp [Model.Names, Target.Ty.vars]
  subtypeOf _ h := h
  supertypeOf _ h := h
  missing _ _ := .inl (by simp [Model.Names, Target.Ty.vars])

/-- For a type within `V` only variables of parameters in `V` are written. -/
theorem writes_of_within (hm : m.Carries (m.Within V)) {t : Ty} (ht : t.Every (m.Within V)) :
    Writes (m.Names V) m t where
  error _ := by simp [Model.Names, Target.Ty.vars]
  shown _ shown hshown := by
    refine ⟨fun p hp => ?_, .inr (by simp [Model.Names, Target.Ty.vars])⟩
    have hV := (hm.simplify (every_of_shown hm ht hshown)).self.param p hp
    intro v hv
    exact ⟨p, hV, (List.mem_singleton.mp hv).symm⟩

end TypeLowering

namespace Env

open TypeLowering

variable {env : Env} {V : ParamId → Prop}

/-- A type within `V` is lowered with variables of parameters in `V` only. -/
theorem lowerType_names (hm : env.model.Carries (env.model.Within V)) {t : Ty} {ctx : Context}
    (ht : t.Every (env.model.Within V)) (hctx : ctx.inSupertypeClause = false) :
    Ensures (fun _ => False) (env.model.Names V) (env.lowerType t ctx) := by
  have hwrites : ∀ v, env.Reaches ctx t v → Writes (env.model.Names V) env.model v := fun v hv =>
    writes_of_within hm (hv.every hm ht fun hclause => absurd (hctx.symm.trans hclause) (by simp))
  refine (lowerType?_ensures names_formation hwrites).map fun o ho => ?_
  cases o with
  | none => exact names_formation.object
  | some jt =>
    rcases ho jt rfl with hnames | ⟨_, hprimitive⟩
    · exact hnames
    · exact Model.names_of_isPrimitive hprimitive

theorem lowerTypes_names (hm : env.model.Carries (env.model.Within V)) {ts : List Ty}
    {ctx : Context} (hts : ∀ t ∈ ts, t.Every (env.model.Within V))
    (hctx : ctx.inSupertypeClause = false) :
    Ensures (fun _ => False) (fun us => ∀ u ∈ us, env.model.Names V u)
      (env.lowerTypes ctx ts) := by
  induction ts with
  | nil => exact .pure (by simp)
  | cons t ts ih =>
    refine (lowerType_names hm (hts t List.mem_cons_self) hctx).bind .never fun u hu => ?_
    refine (ih fun t' ht' => hts t' (List.mem_cons_of_mem _ ht')).bind .never fun us hus => ?_
    exact .pure (by simpa using ⟨hu, hus⟩)

/-- A type parameter is written as its variable. -/
theorem lowerType_param (p : ParamId) :
    env.lowerType (.param p) .boxed = pure (.var (env.model.param p).name) := by
  have hprimitives : (adjust env.config .boxed).allowsPrimitives = false := by
    rw [(adjust_flags env.config .boxed).2.2]
    rfl
  have hresolve : resolveBound env.model (adjust env.config .boxed) (Ty.param p).collapse =
      .param p := by
    rw [resolveBound_adjust]
    rfl
  unfold lowerType lowerType?
  rw [step_of_not_erases (by simp [Ty.collapse])
    (by rw [hresolve]; exact Model.not_erases_of_isParam rfl), hresolve]
  unfold writtenType
  rw [if_neg (by simp [Ty.simplify, Ty.isOptional, Ty.collapse, Ty.isComposite]),
    if_neg (by simp [Ty.erasesToException, Ty.simplify, Ty.isOptional, Ty.collapse,
      Ty.withoutHint, Language.exceptionTy, Ty.of]),
    if_neg (by simp [hprimitives]), if_neg (by simp [Ty.isTypeParameter, Ty.nonNull, Ty.isParam])]
  simp [classType, Ty.simplify, Ty.isOptional, Ty.collapse, Ty.segments, Ty.args, bareType,
    orObject]

theorem lowerTypes_param {ts : List Ty} {p : ParamId} (hp : .param p ∈ ts) :
    Ensures (fun _ => False) (fun us => .var (env.model.param p).name ∈ us)
      (env.lowerTypes .boxed ts) := by
  induction ts with
  | nil => contradiction
  | cons t ts ih =>
    rw [lowerTypes]
    rcases List.mem_cons.mp hp with rfl | hp
    · rw [lowerType_param, pure_bind]
      refine Ensures.bind (P := fun _ => True) .never (fun _ _ _ => .inl trivial) fun us _ => ?_
      exact .pure List.mem_cons_self
    · refine Ensures.bind (P := fun _ => True) .never (fun _ _ _ => .inl trivial) fun u _ => ?_
      exact (ih hp).bind .never fun us hus => .pure (List.mem_cons_of_mem _ hus)

theorem methodParams_names (hm : env.model.Carries (env.model.Within V)) {ps : List Parameter}
    (hps : ∀ p ∈ ps, p.ty.Every (env.model.Within V)) :
    Ensures (fun _ => False) (fun xs => ∀ x ∈ xs, env.model.Names V x.ty)
      (env.methodParams ps) := by
  induction ps with
  | nil => exact .pure (by simp)
  | cons p ps ih =>
    have hctx : (if p.raw = some true then Context.plain else .boxed).inSupertypeClause = false :=
      by split <;> rfl
    refine (lowerType_names hm (hps p List.mem_cons_self) hctx).bind .never fun ty hty => ?_
    refine (ih fun p' hp' => hps p' (List.mem_cons_of_mem _ hp')).bind .never fun xs hxs => ?_
    exact .pure (by simpa using ⟨hty, hxs⟩)

theorem lowerTypeParam_names (hm : env.model.Scoped) {d : DeclId} {q : ParamId}
    (hq : q ∈ (env.model.decl d).typeParams) :
    Ensures (fun _ => False) (env.model.TypeParamNames d q) (env.lowerTypeParam q) := by
  have hcarries : env.model.Carries
      (env.model.Within (env.model.Admits d (env.model.BoundsBring q))) :=
    Model.carries_admits hm fun _ hp => Model.BoundsBring.exists_own hm hp
  have hbounds : Ensures (fun _ => False)
      (fun us => ∀ u ∈ us, env.model.Names (env.model.Admits d (env.model.BoundsBring q)) u)
      (env.lowerTypes .boxed (env.model.emittedBounds q)) :=
    lowerTypes_names hcarries (Model.every_emittedBounds hm hq) rfl
  have hforeign : Ensures (fun _ => False)
      (fun us => ∀ source ∈ env.model.boundsSource? q, ∀ p,
        .param p ∈ (env.model.param source).bounds → .var (env.model.param p).name ∈ us)
      (env.lowerTypes .boxed (env.model.emittedBounds q)) := by
    intro us notes hus
    refine .inl fun source hsource p hp => ?_
    refine (lowerTypes_param ?_ us notes hus).resolve_right id
    -- A bound that is a type parameter is never dropped from what is emitted.
    have herases : env.model.erasesToObject (.param p) = false := Model.not_erases_of_isParam rfl
    rw [Model.emittedBounds, Option.mem_def.mp hsource, Option.getD_some]
    exact List.mem_filter.mpr ⟨hp, by simp [herases]⟩
  exact (hbounds.and hforeign).bind .never fun us hus => .pure ⟨rfl, hus.1, hus.2⟩

theorem lowerTypeParams_names (hm : env.model.Scoped) {d : DeclId} {qs : List ParamId}
    (hqs : ∀ q ∈ qs, q ∈ (env.model.decl d).typeParams) :
    Ensures (fun _ => False) (List.Forall₂ (env.model.TypeParamNames d) qs)
      (env.lowerTypeParams qs) := by
  induction qs with
  | nil => exact .pure .nil
  | cons q qs ih =>
    refine (lowerTypeParam_names hm (hqs q List.mem_cons_self)).bind .never fun x hx => ?_
    refine (ih fun q' hq' => hqs q' (List.mem_cons_of_mem _ hq')).bind .never fun xs hxs => ?_
    exact .pure (.cons hx hxs)

/-! ## Methods -/

section

open Lowering (Yields yields_bind yields_pure)

variable {s s' : LowerState} {result : Ty} {ty : Target.Ty} {body : List Tree.Stmt}
  {code : List Target.Stmt}

theorem plainBody_names (hm : env.model.Carries (env.model.Within V))
    (hresult : result.Every (env.model.Within V))
    (h : Yields (env.plainBody result body) s (ty, code) s') : env.model.Names V ty := by
  unfold plainBody at h
  obtain ⟨_, _, _, h⟩ := yields_bind.mp h
  obtain ⟨_, _, _, h⟩ := yields_bind.mp h
  obtain ⟨written, _, hwritten, h⟩ := yields_bind.mp h
  obtain ⟨heq, _⟩ := yields_pure.mp h
  cases heq
  have hanswer := hwritten.answer
  unfold methodResult at hanswer
  split at hanswer
  · cases hanswer
    simp [Model.Names, Target.Ty.vars]
  · exact (lowerType_names hm hresult rfl).answer hanswer

theorem curriedBody_names (hm : env.model.Carries (env.model.Within V))
    {lists : List (List Parameter)} (hresult : (result.curried lists).Every (env.model.Within V))
    (h : Yields (env.curriedBody result lists body) s (ty, code) s') : env.model.Names V ty := by
  unfold curriedBody at h
  obtain ⟨_, _, _, h⟩ := yields_bind.mp h
  obtain ⟨_, _, _, h⟩ := yields_bind.mp h
  obtain ⟨written, _, hwritten, h⟩ := yields_bind.mp h
  obtain ⟨heq, _⟩ := yields_pure.mp h
  cases heq
  exact (lowerType_names hm hresult rfl).answer hwritten.answer

theorem lowerFunction_names (hm : env.model.Scoped) {f : Tree.Function} {method : Target.Method}
    (h : Yields (env.lowerFunction f (env.model.resultType f.decl)) s method s') :
    env.model.HeaderNames f.decl method := by
  have hresult := Model.every_resultType hm f.decl
  have hcarries : env.model.Carries
      (env.model.Within (env.model.Admits f.decl (env.model.ResultBrings f.decl))) :=
    Model.carries_admits hm fun _ hp => Model.ResultBrings.exists_own hm hp
  -- What the result brings in does not reach the types of parameters.
  have hinner : env.model.Carries (env.model.Within (env.model.Admits f.decl fun _ => False)) :=
    Model.carries_admits hm fun _ => False.elim
  unfold lowerFunction at h
  dsimp only at h
  split at h
  · exact absurd h Lowering.not_yields_fail
  · rename_i first rest hlists
    obtain ⟨_, _, _, h⟩ := yields_bind.mp h
    obtain ⟨typeParams, _, htypeParams, h⟩ := yields_bind.mp h
    obtain ⟨params, _, hparams, h⟩ := yields_bind.mp h
    have htypes := (lowerTypeParams_names hm fun _ hq => hq).answer htypeParams.answer
    have hfirst : first ∈ (env.model.decl f.decl).paramLists := hlists ▸ List.mem_cons_self
    have hnames := (methodParams_names hinner fun x hx =>
      Model.every_parameter hm hfirst hx).answer hparams.answer
    split at h
    · obtain ⟨⟨ty, code⟩, _, hbody, h⟩ := yields_bind.mp h
      obtain ⟨rfl, _⟩ := yields_pure.mp h
      exact ⟨htypes, plainBody_names hcarries hresult hbody, hnames⟩
    · obtain ⟨⟨ty, code⟩, _, hbody, h⟩ := yields_bind.mp h
      obtain ⟨rfl, _⟩ := yields_pure.mp h
      have hcurried := Model.every_curried hresult fun list hlist x hx =>
        Model.every_parameter hm (hlists ▸ List.mem_cons_of_mem _ hlist) hx
      exact ⟨htypes, curriedBody_names hcarries hcurried hbody, hnames⟩

end

end Env

/-! ## Closed headers -/

namespace Model

variable {m : Model} {d : DeclId} {method : Target.Method}

/-- A header is closed when what it brings from elsewhere is in scope. -/
theorem HeaderNames.closed (h : m.HeaderNames d method) (hm : m.Scoped)
    (hopen : ∀ p, m.LeftOpen p → m.InScope d p) (hresult : ∀ p, m.ResultBrings d p → m.InScope d p)
    (hbounds : ∀ q ∈ (m.decl d).typeParams, ∀ p, m.BoundsBring q p → m.InScope d p) :
    m.HeaderClosed d method := by
  have hadmits : ∀ {S p}, (∀ p, S p → m.InScope d p) → m.Admits d S p → m.InScope d p :=
    fun hS hp => hp.elim id (LeadsTo.inScope hm hopen hS)
  intro v hv
  unfold Target.Method.headerVars at hv
  rcases List.mem_append.mp hv with hv | hv
  · rcases List.mem_append.mp hv with hv | hv
    · obtain ⟨x, hx, hv⟩ := List.mem_flatMap.mp hv
      obtain ⟨i, hi, rfl⟩ := List.getElem_of_mem hx
      have hi' : i < (m.decl d).typeParams.length := h.typeParams.length_eq ▸ hi
      have hnames := h.typeParams.get hi' hi
      have hown := hbounds _ (List.getElem_mem hi')
      exact Names.all (fun b hb => (hnames.bounds b hb).mono fun _ => hadmits hown) v hv
    · exact (h.result.mono fun _ => hadmits hresult) v hv
  · obtain ⟨x, hx, hv⟩ := List.mem_flatMap.mp hv
    exact ((h.params x hx).mono fun _ => hadmits fun _ => False.elim) v hv

end Model

namespace Backend

/-- Where declared types mention only type parameters in scope, the header of a
lowered function names parameters in scope, and only these further ones: in the
result, parameters of a refined declaration that its instantiation leaves as they
are; in the bounds of a type parameter, those that the bounds of the refined
parameter mention; and anywhere, those that incomplete types leave open, with
what bounds lead to.  So the header is closed wherever these are all in scope. -/
theorem lowerFunction_header (b : Backend) (f : Tree.Function) (method : Target.Method)
    (hm : b.env.model.Scoped) (hmethod : (b.lowerFunction f).1 = some method) :
    b.env.model.HeaderNames f.decl method ∧
      ((∀ p, b.env.model.LeftOpen p → b.env.model.InScope f.decl p) →
        (∀ p, b.env.model.ResultBrings f.decl p → b.env.model.InScope f.decl p) →
        (∀ q ∈ (b.env.model.decl f.decl).typeParams, ∀ p, b.env.model.BoundsBring q p →
          b.env.model.InScope f.decl p) →
        b.env.model.HeaderClosed f.decl method) := by
  have hrun : ∃ s', Lowering.Yields (b.env.lowerFunction f (b.env.model.resultType f.decl))
      (.start b.table) method s' := by
    unfold lowerFunction Lowered.method? Env.lowerAlone at hmethod
    dsimp only at hmethod
    split at hmethod
    · rename_i hok
      cases hmethod
      exact ⟨_, Prod.ext hok rfl⟩
    · contradiction
  obtain ⟨s', hrun⟩ := hrun
  have hnames := Env.lowerFunction_names hm hrun
  exact ⟨hnames, hnames.closed hm⟩

/-- `interface Cmp<in T>`, an interface `Base` with a method
`X m<X>(X x) given X satisfies upper`, and a class `Derived` that satisfies `Base`
with `Y m<Y>(Y y) given Y satisfies lower`. -/
def refining (upper lower : Ty) : Model where
  decls := #[
    { Declaration.bare "Cmp" .iface "demo" none with typeParams := [⟨10⟩] },
    .bare "Base" .iface "demo" none,
    { Declaration.bare "m" .method "demo" (some ⟨23⟩) with
      typeParams := [⟨11⟩], ty := some (.param ⟨11⟩)
      paramLists := [[⟨"x", .param ⟨11⟩, none⟩]] },
    { Declaration.bare "Derived" .cls "demo" none with
      extended := some Language.objectTy, satisfied := [.of ⟨23⟩ []] },
    { Declaration.bare "m" .method "demo" (some ⟨25⟩) with
      typeParams := [⟨12⟩], ty := some (.param ⟨12⟩)
      paramLists := [[⟨"y", .param ⟨12⟩, none⟩]], refined := some ⟨24⟩ }]
  params := #[
    ⟨"T", .contravariant, [], ⟨22⟩, false⟩,
    ⟨"X", .invariant, [upper], ⟨24⟩, false⟩,
    ⟨"Y", .invariant, [lower], ⟨26⟩, false⟩]

/-- Both methods bound their parameter by comparison with a fixed type. -/
def sameBounds : Model :=
  refining (.of ⟨22⟩ [Language.stringTy]) (.of ⟨22⟩ [Language.stringTy])

/-- Both methods bound their parameter by comparison with itself. -/
def selfBounds : Model := refining (.of ⟨22⟩ [.param ⟨11⟩]) (.of ⟨22⟩ [.param ⟨12⟩])

/-- A backend before the first function. -/
def starting (m : Model) : Backend := ⟨.of m .standard, .new .standard, .empty⟩

/-- The refining method, with an empty body. -/
def refiningMethod : Tree.Function := ⟨⟨26⟩, [], .dummy⟩

/-- With the same bounds nothing is taken from the refined method, so the header
is closed. -/
theorem sameBounds_closed :
    sameBounds.Scoped ∧ ∃ method, ((starting sameBounds).lowerFunction refiningMethod).1 =
      some method ∧ sameBounds.HeaderNames ⟨26⟩ method ∧ sameBounds.HeaderClosed ⟨26⟩ method := by
  have hscoped : sameBounds.Scoped := Model.scoped_of_containers (by decide)
  obtain ⟨method, hmethod⟩ := Option.isSome_iff_exists.mp
    (by decide : ((starting sameBounds).lowerFunction refiningMethod).1.isSome = true)
  obtain ⟨hnames, hclosed⟩ :=
    lowerFunction_header (starting sameBounds) refiningMethod method hscoped hmethod
  refine ⟨hscoped, method, hmethod, hnames, hclosed (fun p hp => ?_) (fun p hp => ?_) ?_⟩
  · exact absurd hp (Model.not_leftOpen_of_complete (by decide) p)
  · have hty : (sameBounds.decl
        (sameBounds.nonWideningRef (sameBounds.ownRef ⟨26⟩)).decl).ty = some (.param ⟨12⟩) := by
      decide
    obtain ⟨⟨t, ht, hmentions⟩, _⟩ := hp
    obtain rfl : Ty.param ⟨12⟩ = t := Option.some.inj (hty.symm.trans ht)
    cases List.mem_singleton.mp hmentions
    exact .own (by decide)
  · rintro q hq p ⟨source, hsource, _⟩
    obtain rfl : q = ⟨12⟩ := List.mem_singleton.mp hq
    have hnone : sameBounds.boundsSource? ⟨12⟩ = none := by decide
    exact absurd (hnone.symm.trans hsource) (by simp)

/-- With bounds that mention the parameter itself, the refined method's parameter
comes into the bounds and into the result without being renamed. -/
theorem selfBounds_open :
    selfBounds.Scoped ∧ ∃ method, ((starting selfBounds).lowerFunction refiningMethod).1 =
      some method ∧ ¬ selfBounds.HeaderClosed ⟨26⟩ method := by
  obtain ⟨method, hmethod, hvars⟩ : ∃ method,
      ((starting selfBounds).lowerFunction refiningMethod).1 = some method ∧
        method.headerVars = ["X", "X", "Y"] :=
    Option.map_eq_some_iff.mp (by decide)
  refine ⟨Model.scoped_of_containers (by decide), method, hmethod, fun hclosed => ?_⟩
  obtain ⟨p, hscope, hname⟩ := hclosed "X" (by simp [hvars])
  cases hscope with
  | own hp =>
    obtain rfl : p = ⟨12⟩ := List.mem_singleton.mp hp
    exact absurd hname (by decide)
  | around hc hp =>
    cases hc
    cases hp with
    | own hp => contradiction
    | around hc _ => contradiction

end Backend

end TreeLowering
