import TreeLowering.Model.Display
import TreeLowering.Proofs.Shared.Telling
import TreeLowering.Shared.Model
set_option autoImplicit false

/-!
# Proofs: a program in shared tables

The declarations of a program stand in tables when every position and every name in
them stands for the type or the text in its place.  Then what is read off the
declarations is the same, and so are the types that are built from them.
-/

namespace TreeLowering.Shared

open Tables Tabled

namespace Tables

variable {t u : Tables}

/-- The formal parameter in the tables. -/
structure HasParameter (t : Tables) (p : Parameter) (P : TreeLowering.Parameter) : Prop where
  name : t.HasName p.name P.name
  ty : t.HasTy p.ty P.ty
  raw : p.raw = P.raw

/-- The type parameter in the tables. -/
structure HasTypeParam (t : Tables) (p : TypeParam) (P : TreeLowering.TypeParam) : Prop where
  name : t.HasName p.name P.name
  variance : p.variance = P.variance
  bounds : Each HasTy t p.bounds P.bounds
  owner : p.owner = P.owner
  sequenced : p.sequenced = P.sequenced

/-- The declaration in the tables, its members left aside. -/
structure HasDeclaration (t : Tables) (d : Declaration) (D : TreeLowering.Declaration) : Prop where
  name : t.HasName d.name D.name
  kind : d.kind = D.kind
  package : t.HasName d.package D.package
  container : d.container = D.container
  typeParams : d.typeParams = D.typeParams
  extended : Maybe HasTy t d.extended D.extended
  satisfied : Each HasTy t d.satisfied D.satisfied
  ty : Maybe HasTy t d.ty D.ty
  paramLists : Each (Each HasParameter) t d.paramLists D.paramLists
  refined : d.refined = D.refined
  flags : d.flags = D.flags

/-- The language module's types without arguments in the tables. -/
structure HasBuiltins (t : Tables) (b : Builtins) : Prop where
  void : t.HasTy b.void Language.voidTy
  object : t.HasTy b.object Language.objectTy
  nothing : t.HasTy b.nothing Language.nothingTy
  identifiable : t.HasTy b.identifiable Language.identifiableTy
  identifiableObject : t.HasTy b.identifiableObject Language.identifiableObjectTy
  exception : t.HasTy b.exception Language.exceptionTy
  boolean : t.HasTy b.boolean Language.booleanTy
  string : t.HasTy b.string Language.stringTy
  integer : t.HasTy b.integer Language.integerTy
  float : t.HasTy b.float Language.floatTy
  character : t.HasTy b.character Language.characterTy

/-- The program in the tables. -/
structure HasModel (t : Tables) (m : Model) (M : TreeLowering.Model) : Prop where
  decl : ∀ d, t.HasDeclaration (m.decl d) (M.decl d)
  members : ∀ d, (m.decl d).members = M.members d
  param : ∀ p, t.HasTypeParam (m.param p) (M.param p)
  declCount : m.decls.size = M.declCount
  paramCount : m.params.size = M.paramCount
  builtins : t.HasBuiltins m.builtins

instance : Stays HasParameter := ⟨fun h hu => ⟨h.name.mono hu, h.ty.mono hu, h.raw⟩⟩

instance : Stays HasTypeParam where
  mono h hu := ⟨h.name.mono hu, h.variance, Stays.mono h.bounds hu, h.owner, h.sequenced⟩

instance : Stays HasDeclaration where
  mono h hu :=
    { h with
      name := h.name.mono hu
      package := h.package.mono hu
      extended := Stays.mono h.extended hu
      satisfied := Stays.mono h.satisfied hu
      ty := Stays.mono h.ty hu
      paramLists := Stays.mono h.paramLists hu }

theorem HasBuiltins.mono {b : Builtins} (h : t.HasBuiltins b) (hu : t.Within u) :
    u.HasBuiltins b where
  void := h.void.mono hu
  object := h.object.mono hu
  nothing := h.nothing.mono hu
  identifiable := h.identifiable.mono hu
  identifiableObject := h.identifiableObject.mono hu
  exception := h.exception.mono hu
  boolean := h.boolean.mono hu
  string := h.string.mono hu
  integer := h.integer.mono hu
  float := h.float.mono hu
  character := h.character.mono hu

namespace HasModel

variable {m : Model} {M : TreeLowering.Model} {d : DeclId} {i : TypeIdx} {τ : Ty} {n : Name}
  {x : String} {o : Option TypeIdx} {O : Option Ty}

theorem mono (hm : t.HasModel m M) (hu : t.Within u) : u.HasModel m M where
  decl d := Stays.mono (hm.decl d) hu
  members := hm.members
  param p := Stays.mono (hm.param p) hu
  declCount := hm.declCount
  paramCount := hm.paramCount
  builtins := hm.builtins.mono hu

variable (hm : t.HasModel m M)
include hm

/-! ## Containers and members -/

theorem isClassLike (d : DeclId) : (m.decl d).isClassLike = (M.decl d).isClassLike := by
  have hkind := (hm.decl d).kind
  unfold Declaration.isClassLike TreeLowering.Declaration.isClassLike
  generalize (m.decl d).kind = k, (M.decl d).kind = K at hkind
  subst hkind
  cases k <;> rfl

theorem isInterface (d : DeclId) : (m.decl d).isInterface = (M.decl d).isInterface := by
  rw [Declaration.isInterface, TreeLowering.Declaration.isInterface, (hm.decl d).kind]

theorem isMethod (d : DeclId) : (m.decl d).isMethod = (M.decl d).isMethod := by
  rw [Declaration.isMethod, TreeLowering.Declaration.isMethod, (hm.decl d).kind]

theorem supertypes (d : DeclId) :
    Each HasTy t (m.decl d).supertypes (M.decl d).supertypes := by
  have hextended := (hm.decl d).extended
  unfold Declaration.supertypes TreeLowering.Declaration.supertypes
  generalize (m.decl d).extended = e, (M.decl d).extended = E at hextended
  cases hextended with
  | none => exact (hm.decl d).satisfied
  | some he => exact .cons he (hm.decl d).satisfied

theorem firstBound? (p : ParamId) : Maybe HasTy t (m.firstBound? p) (M.firstBound? p) := by
  have hbounds := (hm.param p).bounds
  unfold Model.firstBound? TreeLowering.Model.firstBound?
  generalize (m.param p).bounds = bs, (M.param p).bounds = Bs at hbounds
  cases hbounds with
  | nil => exact .none
  | cons hb _ => exact .some hb

theorem containersWithin (fuel : Nat) (d : DeclId) :
    m.containersWithin fuel d = M.containersWithin fuel d := by
  induction fuel generalizing d with
  | zero => rfl
  | succ fuel ih =>
    rw [Model.containersWithin, TreeLowering.Model.containersWithin, (hm.decl d).container]
    cases (M.decl d).container with
    | none => rfl
    | some c => exact congrArg (c :: ·) (ih c)

theorem containers (d : DeclId) : m.containers d = M.containers d := by
  rw [Model.containers, TreeLowering.Model.containers, hm.declCount, hm.containersWithin]

theorem enclosingTypes (d : DeclId) : m.enclosingTypes d = M.enclosingTypes d := by
  rw [Model.enclosingTypes, TreeLowering.Model.enclosingTypes, hm.containers,
    funext hm.isClassLike]

theorem enclosingType? (d : DeclId) : m.enclosingType? d = M.enclosingType? d := by
  rw [Model.enclosingType?, TreeLowering.Model.enclosingType?, (hm.decl d).container,
    funext hm.isClassLike]

theorem directMember? (ht : t.Sound) (hn : t.HasName n x) (d : DeclId) :
    m.directMember? d n = M.directMember? d x := by
  rw [Model.directMember?, TreeLowering.Model.directMember?, hm.members]
  refine congrArg (List.find? · _) (funext fun e => ?_)
  rw [Bool.eq_iff_iff, beq_iff_eq, beq_iff_eq]
  exact (hm.decl e).name.eq_iff hn ht

/-! ## Names -/

theorem nestedName (companion : Bool) (d : DeclId) (around : List DeclId) :
    m.nestedName t.names companion d around = M.nestedName companion d around := by
  induction around generalizing companion d with
  | nil =>
    rw [Model.nestedName, TreeLowering.Model.nestedName, (hm.decl d).name.lookup,
      (hm.decl d).package.lookup]
  | cons outer around ih =>
    rw [Model.nestedName, TreeLowering.Model.nestedName, (hm.decl d).name.lookup,
      hm.isInterface, hm.isInterface, ih, ih]

theorem render (d : DeclId) (s : Spelling) : Says t (m.render d s) (M.spelling d s) := by
  refine Tells.reading fun u hu _ => ?_
  have hm := hm.mono hu
  show (if s.qualified then _ else _) = _
  rw [TreeLowering.Model.spelling, hm.nestedName, hm.enclosingTypes, (hm.decl d).name.lookup]

theorem qualifiedName (d : DeclId) : Says t (m.qualifiedName d) (M.qualifiedName d) := by
  refine Tells.reading fun u hu _ => ?_
  have hm := hm.mono hu
  have hname : (fun e => u.names.lookup (m.decl e).name) = fun e => (M.decl e).name :=
    funext fun e => (hm.decl e).name.lookup
  show ".".intercalate _ = _
  rw [TreeLowering.Model.qualifiedName, hm.containers, hname, (hm.decl d).package.lookup]

/-! ## Types as a user writes them -/

omit hm in
theorem displayUnion {cases : List TypeIdx} {Cases : List Ty} (ht : t.Sound)
    (hcases : Each HasTy t cases Cases) (texts : List String) :
    Model.displayUnion t.pool cases texts = TreeLowering.Model.displayUnion Cases texts := by
  have hof : ∀ {i : TypeIdx} {τ : Ty}, t.HasTy i τ →
      (t.pool.node i).isOf Language.nothing = τ.isOf Language.nothing :=
    fun hi => (hi.holds ht).isOf_eq _
  rcases hcases with _ | ⟨ha, _ | ⟨hb, _ | _⟩⟩
  · rfl
  · rfl
  · unfold Model.displayUnion TreeLowering.Model.displayUnion
    rcases texts with _ | ⟨x, _ | ⟨y, _ | _⟩⟩ <;> simp only [hof ha, hof hb]
  · rfl

theorem displayWithin (ht : t.Sound) {fuel : Nat} {i : TypeIdx} {τ : Ty} (hi : t.HasTy i τ)
    (hfuel : i.index < fuel) : m.displayWithin t fuel i = M.display τ := by
  induction fuel generalizing i τ with
  | zero => exact absurd hfuel (Nat.not_lt_zero _)
  | succ fuel ih =>
    have hpart : ∀ j ∈ (t.pool.node i).parts, ∀ σ, t.HasTy j σ →
        m.displayWithin t fuel j = M.display σ := fun j hj σ hσ =>
      ih hσ (Nat.lt_of_lt_of_le (hi.lt_of_mem ht hj) (Nat.le_of_lt_succ hfuel))
    have hnode := hi.holds ht
    unfold Model.displayWithin
    generalize t.pool.node i = n at hpart hnode
    cases hnode with
    | @nominal d as As o O h hargs houter =>
      dsimp only
      have hempty : as.isEmpty = As.isEmpty := by cases hargs <;> rfl
      rw [TreeLowering.Model.display, TreeLowering.Model.displayAll_eq_map,
        hargs.map_eq fun j hj => hpart j (List.mem_append_right _ hj), hempty,
        (hm.decl d).name.lookup]
      cases houter with
      | none => rfl
      | some ho =>
        dsimp only
        rw [TreeLowering.Model.displayOuter, hpart _ List.mem_cons_self _ ho]
    | union hparts =>
      dsimp only
      rw [TreeLowering.Model.display, TreeLowering.Model.displayAll_eq_map, hparts.map_eq hpart,
        displayUnion ht hparts]
    | inter hparts =>
      dsimp only
      rw [TreeLowering.Model.display, TreeLowering.Model.displayAll_eq_map, hparts.map_eq hpart]
    | @param p =>
      rw [TreeLowering.Model.display]
      exact (hm.param p).name.lookup
    | bottom => rw [TreeLowering.Model.display]
    | error => rw [TreeLowering.Model.display]

theorem display (hi : t.HasTy i τ) : Says t (m.display i) (M.display τ) :=
  Tells.reading fun _ hu hsound =>
    (hm.mono hu).displayWithin hsound (hi.mono hu) (Nat.lt_succ_self _)

/-! ## Types of declarations -/

theorem selfApplied (d : DeclId) (ho : Maybe HasTy t o O) :
    Tells t (m.selfApplied d o) HasTy (M.selfApplied d O) := by
  have hparams : Each Same t (m.decl d).typeParams (M.decl d).typeParams := by
    rw [(hm.decl d).typeParams]
    exact List.forall₂_same.mpr fun _ _ => rfl
  have hargs : Tells t (each (fun p => make (.param p)) (m.decl d).typeParams) (Each HasTy)
      ((M.decl d).typeParams.map .param) := by
    refine Tells.each hparams fun p q hpq => ?_
    obtain rfl : p = q := hpq
    exact Tells.make .param
  exact hargs.bind fun u args hu _ hargs => Tells.make (.nominal hargs (Stays.mono ho hu))

theorem nestedType (ds : List DeclId) :
    Tells t (m.nestedType ds) (Maybe HasTy) (M.nestedType ds) := by
  induction ds with
  | nil => exact Tells.pure .none
  | cons d around ih =>
    refine ih.bind fun u outer hu _ ho => ?_
    exact ((hm.mono hu).selfApplied d ho).map fun _ _ _ _ h => .some h

theorem declaredType (d : DeclId) : Tells t (m.declaredType d) HasTy (M.declaredType d) := by
  unfold Model.declaredType TreeLowering.Model.declaredType
  rw [hm.enclosingTypes]
  exact (hm.nestedType _).bind fun u outer hu _ ho => (hm.mono hu).selfApplied d ho

end HasModel

theorem HasTy.iteratorOf {i : TypeIdx} {τ : Ty} (hi : t.HasTy i τ) :
    Tells t (iteratorOf i) HasTy (.iteratorOf τ) :=
  Tells.make (.nominal (.cons hi .nil) .none)

theorem HasTy.callable {i : TypeIdx} {τ : Ty} {is : List TypeIdx} {τs : List Ty}
    (hi : t.HasTy i τ) (his : Each HasTy t is τs) :
    Tells t (callable i is) HasTy (.callable τ τs) :=
  Tells.make (.nominal (.cons hi his) .none)

theorem Each.types {ps : List Parameter} {Ps : List TreeLowering.Parameter}
    (hps : Each HasParameter t ps Ps) : Each HasTy t (Parameter.types ps) (Ps.map (·.ty)) := by
  induction hps with
  | nil => exact .nil
  | cons hp _ ih => exact .cons hp.ty ih

end Tables

end TreeLowering.Shared
