import TreeLowering.Lowering.Boxing
set_option autoImplicit false

/-!
# Proofs: the language module in a model

A model changes nothing in the language module, so its declarations have the
same names and supertypes in every model.
-/

namespace TreeLowering

namespace Model

variable {m : Model}

/-! ## Declarations -/

theorem decl_language {d : DeclId} {x : Declaration} (h : Language.decls[d.index]? = some x) :
    m.decl d = x := by
  rw [decl, h]

theorem enclosingTypes_language {d : DeclId} {x : Declaration}
    (h : Language.decls[d.index]? = some x) (hx : x.container = none) :
    m.enclosingTypes d = [] := by
  have hcontainers : ∀ fuel, m.containersWithin fuel d = [] := by
    intro fuel
    cases fuel with
    | zero => rfl
    | succ fuel => simp [containersWithin, decl_language h, hx]
  simp [enclosingTypes, containers, hcontainers]

/-- A declaration of the language module is spelled alike in every model. -/
theorem spelling_language {d : DeclId} {x : Declaration}
    (h : Language.decls[d.index]? = some x) (hx : x.container = none) (s : Spelling) :
    m.spelling d s = Model.new.spelling d s := by
  simp only [spelling, enclosingTypes_language h hx, nestedName, decl_language h]

/-! ## Supertypes -/

theorem supertypeWithin_zero_eq_none {target d : DeclId} {as : List Ty} {o : Option Ty}
    {h : Option Hint} (hd : d ≠ target) :
    m.supertypeWithin target 0 (.nominal d as o h) = none := by
  rw [supertypeWithin_zero, climb, if_neg hd]
  exact List.findSome?_eq_none_iff.mpr fun _ _ => rfl

/-- A class or interface below none of whose supertypes `target` stands. -/
theorem supertypeWithin_eq_none {target d : DeclId} {as : List Ty} {o : Option Ty}
    {h : Option Hint} (hd : d ≠ target)
    (hup : ∀ t ∈ (m.decl d).supertypes, ∀ fuel,
      m.supertypeWithin target fuel (t.subst (m.substitution (.nominal d as o h))) = none)
    (fuel : Nat) : m.supertypeWithin target fuel (.nominal d as o h) = none := by
  cases fuel with
  | zero => exact supertypeWithin_zero_eq_none hd
  | succ fuel =>
    rw [supertypeWithin_succ, climb, if_neg hd]
    exact List.findSome?_eq_none_iff.mpr (fun t ht => hup t ht fuel)

/-- Above the root classes there are only root classes. -/
theorem exists_root_of_mem_supertypes {d : DeclId} {t : Ty} (hd : d ∈ rootDecls)
    (ht : t ∈ (m.decl d).supertypes) : ∃ d' ∈ rootDecls, t = .of d' [] := by
  simp only [rootDecls, List.mem_cons, List.not_mem_nil, or_false] at hd
  rcases hd with rfl | rfl | rfl | rfl | rfl
  · contradiction
  · exact ⟨_, by decide, List.mem_singleton.mp ht⟩
  · exact ⟨_, by decide, List.mem_singleton.mp ht⟩
  · have hmem : t ∈ [Language.objectTy, Language.identifiableTy] := ht
    rcases List.mem_cons.mp hmem with rfl | hmem
    · exact ⟨Language.object, by decide, rfl⟩
    · exact ⟨_, by decide, List.mem_singleton.mp hmem⟩
  · contradiction

/-- A root class is of no other class than root classes. -/
theorem supertypeWithin_root {target d : DeclId} {as : List Ty} {o : Option Ty} {h : Option Hint}
    (htarget : target ∉ rootDecls) (hd : d ∈ rootDecls) (fuel : Nat) :
    m.supertypeWithin target fuel (.nominal d as o h) = none := by
  have hne : ∀ {c}, c ∈ rootDecls → c ≠ target := fun hc heq => htarget (heq ▸ hc)
  induction fuel generalizing d as o h with
  | zero => exact supertypeWithin_zero_eq_none (hne hd)
  | succ fuel ih =>
    rw [supertypeWithin_succ, climb, if_neg (hne hd)]
    refine List.findSome?_eq_none_iff.mpr fun t ht => ?_
    obtain ⟨d', hd', rfl⟩ := exists_root_of_mem_supertypes hd ht
    exact ih hd'

theorem not_boolean_void (fuel : Nat) :
    m.supertypeWithin Language.boolean fuel Language.voidTy = none :=
  supertypeWithin_root (by decide) (by decide) fuel

theorem not_boolean_object (fuel : Nat) :
    m.supertypeWithin Language.boolean fuel Language.objectTy = none :=
  supertypeWithin_root (by decide) (by decide) fuel

theorem not_boolean_iterable (t : Ty) (fuel : Nat) :
    m.supertypeWithin Language.boolean fuel (.of Language.iterable [t]) = none :=
  supertypeWithin_eq_none (by decide) (fun t ht => by contradiction) fuel

theorem not_boolean_fixedSized (t : Ty) (fuel : Nat) :
    m.supertypeWithin Language.boolean fuel (.of Language.fixedSized [t]) = none := by
  refine supertypeWithin_eq_none (by decide) (fun u hu fuel => ?_) fuel
  obtain rfl : u = .of Language.iterable [.param Language.fixedSizedElement] :=
    List.mem_singleton.mp hu
  exact not_boolean_iterable _ fuel

theorem not_boolean_sequence (t : Ty) (fuel : Nat) :
    m.supertypeWithin Language.boolean fuel (.of Language.sequence [t]) = none := by
  refine supertypeWithin_eq_none (by decide) (fun u hu fuel => ?_) fuel
  obtain rfl : u = .of Language.fixedSized [.param Language.sequenceElement] :=
    List.mem_singleton.mp hu
  exact not_boolean_fixedSized _ fuel

theorem not_boolean_arraySequence (t : Ty) (fuel : Nat) :
    m.supertypeWithin Language.boolean fuel (.of Language.arraySequence [t]) = none := by
  refine supertypeWithin_eq_none (by decide) (fun u hu fuel => ?_) fuel
  have hmem : u ∈ [Language.objectTy,
    .of Language.sequence [.param Language.arraySequenceElement]] := hu
  rcases List.mem_cons.mp hmem with rfl | hmem
  · exact not_boolean_object fuel
  · obtain rfl := List.mem_singleton.mp hmem
    exact not_boolean_sequence _ fuel

theorem isBoolean_eq_false {t : Ty}
    (h : ∀ fuel, m.supertypeWithin Language.boolean fuel t = none) : m.isBoolean t = false := by
  simp only [isBoolean, isSubtypeOf, supertype?, h, Option.isSome_none, Bool.and_false]

/-- The type of everything has no raw form. -/
theorem canUnbox_void : m.canUnbox Language.voidTy = false := by
  have hboolean : m.isBoolean Language.voidTy = false := isBoolean_eq_false not_boolean_void
  simp only [canUnbox, isBasic, hboolean]
  decide

end Model

/-! ## Classes that lowered code names itself -/

namespace TypeLowering

variable {m : Model} {lower : Ty → TypeLowering Target.Ty} {ctx : Context}

/-- A class or interface that is no optional type is already simple. -/
theorem simplify_nominal {d : DeclId} {as : List Ty} {o : Option Ty} {h : Option Hint}
    (hoptional : (Ty.nominal d as o h).isOptional = false) :
    (Ty.nominal d as o h).simplify = .nominal d as o h := by
  unfold Ty.simplify
  rw [hoptional]
  rfl

/-- A generic type that is no Boolean is lowered as a class type where nothing
may be primitive. -/
theorem step_generic {d : DeclId} {t : Ty} (hoptional : (Ty.of d [t]).isOptional = false)
    (hboolean : m.isBoolean (.of d [t]) = false) (hprimitive : ctx.allowsPrimitives = false)
    (hbound : ctx.firstBound = false) :
    step m lower ctx (.of d [t]) = some <$> classType m lower ctx (.of d [t]) := by
  have hsimple : (Ty.of d [t]).simplify = .of d [t] := simplify_nominal hoptional
  have hcollapse : (Ty.of d [t]).collapse = .of d [t] := rfl
  have hresolve : resolveBound m ctx (.of d [t]) = .of d [t] := if_neg (by simp [hbound])
  have herases : m.erasesToObject (.of d [t]) = false := by
    unfold Model.erasesToObject
    rw [hsimple]
    simp [Ty.of]
  have hexception : (Ty.of d [t]).erasesToException = false := by
    unfold Ty.erasesToException
    rw [hsimple]
    simp [Ty.of, Ty.withoutHint, Language.exceptionTy]
  unfold step
  dsimp only
  rw [hcollapse, hresolve, if_neg (by intro h; contradiction), if_neg (by simp [herases]),
    if_neg (by rw [hsimple]; simp [Ty.of, Ty.isComposite]), if_neg (by simp [hexception]),
    if_neg (by simp [hprimitive]), if_neg (by simp [hboolean])]

/-- What is written of a sequence class is its name, with or without
arguments. -/
theorem classType_arraySequence {t : Ty} {c : Target.Ty} (hraw : ctx.raw = false)
    (hname : ctx.simpleName = false) (hcompanion : ctx.companion = false)
    (h : (classType m lower ctx (.of Language.arraySequence [t])).answer? = some c) :
    ∃ args, c = .applied (.cls (m.spelling Language.arraySequence .full)) args := by
  have hsimple : (Ty.of Language.arraySequence [t]).simplify = .of Language.arraySequence [t] := rfl
  have hsegments : (Ty.of Language.arraySequence [t]).segments =
      [.of Language.arraySequence [t]] := rfl
  have hlifted : isLifted m (.of Language.arraySequence [t]) = false := by
    simp [isLifted, hsegments]
  have hbase : segmentBase m ctx (Chain.of m (.of Language.arraySequence [t])) .erroneous 0
      Language.arraySequence = .cls <$> declName m Language.arraySequence .full := by
    have hcallable : (Ty.of Language.arraySequence [t]).isCallable = false := rfl
    have hinterface : (m.decl Language.arraySequence).isInterface = false := rfl
    have hspelling : spellingIn ctx = .full := by
      simp [spellingIn, Spelling.full, hname, hcompanion]
    simp [segmentBase, Chain.of, hcallable, hinterface, hspelling]
  have hclass : classType m lower ctx (.of Language.arraySequence [t]) =
      segmentType m lower ctx (Chain.of m (.of Language.arraySequence [t])) .erroneous 0
        (.of Language.arraySequence [t]) := by
    unfold classType
    dsimp only
    rw [hsimple, if_pos (by rw [hraw, hsegments]; rfl), if_neg (by simp [hlifted]),
      if_neg (by simp [hname]), hsegments]
    simp [chainType]
  rw [hclass] at h
  obtain ⟨args, _, h⟩ := answer?_bind.mp h
  obtain ⟨base, hb, h⟩ := answer?_bind.mp h
  rw [hbase] at hb
  cases hb
  cases h
  exact ⟨args.getD [], rfl⟩

theorem answer?_classType_raw {d : DeclId} {as : List Ty} {o : Option Ty}
    (hoptional : (Ty.nominal d as o none).isOptional = false) (hraw : ctx.raw = true)
    (hname : ctx.simpleName = false) (hcompanion : ctx.companion = false) :
    (classType m lower ctx (.nominal d as o none)).answer? = some (.cls (m.spelling d .full)) := by
  have hsimple : (Ty.nominal d as o none).simplify = .nominal d as o none :=
    simplify_nominal hoptional
  have hspelling : spellingIn ctx = .full := by
    simp [spellingIn, Spelling.full, hname, hcompanion]
  unfold classType
  simp only [hsimple, hraw, Bool.not_true, Bool.false_and, Bool.false_eq_true, if_false,
    bareType, hspelling]
  simp only [reduceCtorEq, decide_false, Bool.and_false, Bool.false_eq_true, if_false]
  rfl

end TypeLowering

namespace Env

variable {env : Env}

theorem adjust_eq (c : Config) (ctx : Context) :
    TypeLowering.adjust c ctx = ctx ∨ TypeLowering.adjust c ctx = ctx ∪ .smallNumbers := by
  unfold TypeLowering.adjust
  split
  · exact .inr rfl
  · exact .inl rfl

theorem lowerType_arraySequence {t : Ty} {c : Target.Ty}
    (h : (env.lowerType (.of Language.arraySequence [t]) .inCreation).answer? = some c) :
    ∃ args, c = .applied (.cls (env.model.spelling Language.arraySequence .full)) args := by
  have hctx : ∀ ctx, ctx = Context.inCreation ∨ ctx = Context.inCreation ∪ .smallNumbers →
      ctx.allowsPrimitives = false ∧ ctx.firstBound = false ∧ ctx.raw = false ∧
        ctx.simpleName = false ∧ ctx.companion = false := by
    rintro ctx (rfl | rfl) <;> decide
  obtain ⟨hprimitive, hbound, hraw, hname, hcompanion⟩ := hctx _ (adjust_eq env.config _)
  have hboolean := Model.isBoolean_eq_false (Model.not_boolean_arraySequence (m := env.model) t)
  unfold lowerType lowerType? TypeLowering.orObject at h
  rw [TypeLowering.step_generic rfl hboolean hprimitive hbound,
    Functor.map_map, TypeLowering.answer?_map, Option.map_eq_some_iff] at h
  obtain ⟨c', hc, rfl⟩ := h
  exact TypeLowering.classType_arraySequence hraw hname hcompanion hc

theorem answer?_fixedSized (env : Env) :
    (env.lowerType (env.model.declaredType Language.fixedSized) (.boxed ∪ .rawType)).answer? =
      some (.cls (env.model.spelling Language.fixedSized .full)) := by
  have hctx : ∀ ctx, ctx = Context.boxed ∪ .rawType ∨
      ctx = Context.boxed ∪ .rawType ∪ .smallNumbers →
      ctx.allowsPrimitives = false ∧ ctx.firstBound = false ∧ ctx.raw = true ∧
        ctx.simpleName = false ∧ ctx.companion = false := by
    rintro ctx (rfl | rfl) <;> decide
  obtain ⟨hprimitive, hbound, hraw, hname, hcompanion⟩ := hctx _ (adjust_eq env.config _)
  have hself : env.model.declaredType Language.fixedSized =
      .of Language.fixedSized [.param Language.fixedSizedElement] := by
    rw [Model.declaredType, Model.enclosingTypes_language rfl rfl]
    rfl
  have hboolean := Model.isBoolean_eq_false
    (Model.not_boolean_fixedSized (m := env.model) (.param Language.fixedSizedElement))
  unfold lowerType lowerType? TypeLowering.orObject
  rw [hself, TypeLowering.step_generic rfl hboolean hprimitive hbound, Functor.map_map,
    TypeLowering.answer?_map, Ty.of, TypeLowering.answer?_classType_raw rfl hraw hname hcompanion]
  rfl

end Env

end TreeLowering
