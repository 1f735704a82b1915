import TreeLowering.Proofs.DeclarationName
import TreeLowering.Proofs.Shared.Tree
import TreeLowering.Shared.Store
set_option autoImplicit false

/-!
# Proofs: what is stored in shared tables

Whatever the tables hold already, a stored type, program or tree stands for the one that
was stored.
-/

namespace TreeLowering.Shared

open Tables Tabled

namespace Tables

variable {t : Tables}

/-! ## Types -/

mutual

theorem tells_storeTy : ∀ τ : Ty, Tells t (storeTy τ) HasTy τ
  | .nominal _ as o _ =>
    (tells_storeTys as).bind fun _ _ hu _ has => ((tells_storeOuter o).later hu).bind
      fun _ _ hv _ ho => Tells.make (.nominal (Stays.mono has hv) ho)
  | .union ts => (tells_storeTys ts).bind fun _ _ _ _ hts => Tells.make (.union hts)
  | .inter ts => (tells_storeTys ts).bind fun _ _ _ _ hts => Tells.make (.inter hts)
  | .param _ => Tells.make .param
  | .bottom => Tells.make .bottom
  | .error => Tells.make .error

theorem tells_storeTys : ∀ τs : List Ty, Tells t (storeTys τs) (Each HasTy) τs
  | [] => Tells.pure .nil
  | τ :: τs =>
    (tells_storeTy τ).bind fun _ _ hu _ hi => ((tells_storeTys τs).later hu).bind
      fun _ _ hv _ his => Tells.pure (.cons (hi.mono hv) his)

theorem tells_storeOuter : ∀ o : Option Ty, Tells t (storeOuter o) (Maybe HasTy) o
  | none => Tells.pure .none
  | some τ => (tells_storeTy τ).map fun _ _ _ _ hi => .some hi

end

/-! ## Declarations -/

/-- What becomes of several things stands for them. -/
theorem tells_each {α β : Type} {S : Tables → α → β → Prop} [Stays S] {f : β → Tabled α}
    (h : ∀ b, Tells t (f b) S b) (bs : List β) : Tells t (each f bs) (Each S) bs := by
  have hsame : Each Same t bs bs := List.forall₂_same.mpr fun _ _ => rfl
  have hmapped : Tells t (each f bs) (Each S) (bs.map id) := by
    refine Tells.each hsame fun b c hbc => ?_
    obtain rfl : b = c := hbc
    exact h b
  rwa [List.map_id] at hmapped

theorem tells_storeParameter (P : TreeLowering.Parameter) :
    Tells t (storeParameter P) HasParameter P :=
  (Tells.intern _).bind fun _ _ _ _ hn => (tells_storeTy _).bind
    fun _ _ hv _ hi => Tells.pure ⟨hn.mono hv, hi, rfl⟩

theorem tells_storeTypeParam (P : TreeLowering.TypeParam) :
    Tells t (storeTypeParam P) HasTypeParam P :=
  (Tells.intern _).bind fun _ _ _ _ hn => (tells_storeTys _).bind
    fun _ _ hv _ hbounds => Tells.pure ⟨hn.mono hv, rfl, hbounds, rfl, rfl⟩

theorem tells_storeDeclaration (D : TreeLowering.Declaration) (members : List DeclId) :
    Tells t (storeDeclaration D members)
      (fun t d D => t.HasDeclaration d D ∧ d.members = members) D := by
  refine (Tells.intern _).bind fun u₁ name h₁ _ hname => ?_
  refine (Tells.intern _).bind fun u₂ package h₂ _ hpackage => ?_
  refine (tells_storeOuter _).bind fun u₃ extended h₃ _ hextended => ?_
  refine (tells_storeTys _).bind fun u₄ satisfied h₄ _ hsatisfied => ?_
  refine (tells_storeOuter _).bind fun u₅ ty h₅ _ hty => ?_
  refine (tells_each (tells_each tells_storeParameter) _).bind fun u₆ lists h₆ _ hlists => ?_
  have h₅₆ := h₅.trans h₆
  have h₃₆ := h₄.trans h₅₆
  refine Tells.pure ⟨?_, rfl⟩
  exact
    { name := hname.mono (h₂.trans (h₃.trans h₃₆))
      kind := rfl
      package := hpackage.mono (h₃.trans h₃₆)
      container := rfl
      typeParams := rfl
      extended := Stays.mono hextended h₃₆
      satisfied := Stays.mono hsatisfied h₅₆
      ty := Stays.mono hty h₆
      paramLists := hlists
      refined := rfl
      flags := rfl }

instance : Stays (fun t b (_ : Unit) => HasBuiltins t b) := ⟨HasBuiltins.mono⟩

theorem tells_storeBuiltins :
    Tells t storeBuiltins (fun t b (_ : Unit) => t.HasBuiltins b) () := by
  refine (tells_storeTy _).bind fun u₁ void h₁ _ hvoid => ?_
  refine (tells_storeTy _).bind fun u₂ object h₂ _ hobject => ?_
  refine (tells_storeTy _).bind fun u₃ nothing h₃ _ hnothing => ?_
  refine (tells_storeTy _).bind fun u₄ identifiable h₄ _ hidentifiable => ?_
  refine (tells_storeTy _).bind fun u₅ identifiableObject h₅ _ hidentifiableObject => ?_
  refine (tells_storeTy _).bind fun u₆ exception h₆ _ hexception => ?_
  refine (tells_storeTy _).bind fun u₇ boolean h₇ _ hboolean => ?_
  refine (tells_storeTy _).bind fun u₈ string h₈ _ hstring => ?_
  refine (tells_storeTy _).bind fun u₉ integer h₉ _ hinteger => ?_
  refine (tells_storeTy _).bind fun u₁₀ float h₁₀ _ hfloat => ?_
  refine (tells_storeTy _).bind fun u₁₁ character h₁₁ _ hcharacter => ?_
  have k₁₀ := h₁₁
  have k₉ := h₁₀.trans k₁₀
  have k₈ := h₉.trans k₉
  have k₇ := h₈.trans k₈
  have k₆ := h₇.trans k₇
  have k₅ := h₆.trans k₆
  have k₄ := h₅.trans k₅
  have k₃ := h₄.trans k₄
  have k₂ := h₃.trans k₃
  have k₁ := h₂.trans k₂
  refine Tells.pure ?_
  exact
    { void := hvoid.mono k₁
      object := hobject.mono k₂
      nothing := hnothing.mono k₃
      identifiable := hidentifiable.mono k₄
      identifiableObject := hidentifiableObject.mono k₅
      exception := hexception.mono k₆
      boolean := hboolean.mono k₇
      string := hstring.mono k₈
      integer := hinteger.mono k₉
      float := hfloat.mono k₁₀
      character := hcharacter }

section Model

variable {M : TreeLowering.Model}

theorem HasDeclaration.of_default (ht : t.Sound) : t.HasDeclaration default default where
  name := ht.names.empty
  kind := rfl
  package := ht.names.empty
  container := rfl
  typeParams := rfl
  extended := .none
  satisfied := .nil
  ty := .none
  paramLists := .nil
  refined := rfl
  flags := rfl

theorem HasTypeParam.of_default (ht : t.Sound) : t.HasTypeParam default default where
  name := ht.names.empty
  variance := rfl
  bounds := .nil
  owner := rfl
  sequenced := rfl

/-- The type parameter with the number. -/
def IsParam (M : TreeLowering.Model) (t : Tables) (p : TypeParam) (q : ParamId) : Prop :=
  t.HasTypeParam p (M.param q)

/-- The declaration with the number, and its members. -/
structure IsDecl (M : TreeLowering.Model) (t : Tables) (d : Declaration) (e : DeclId) : Prop where
  declaration : t.HasDeclaration d (M.decl e)
  members : d.members = M.members e

instance : Stays (IsParam M) := ⟨fun h hu => Stays.mono (S := HasTypeParam) h hu⟩

instance : Stays (IsDecl M) := ⟨fun h hu => ⟨Stays.mono h.declaration hu, h.members⟩⟩

/-- What is stored for each number is found by it. -/
theorem Each.getElem?_ids {α ι : Type} {S : Tables → α → ι → Prop} {as : List α}
    {mk : Nat → ι} {count : Nat} (has : Each S t as ((List.range count).map mk)) (k : Nat) :
    (∃ a, as[k]? = some a ∧ S t a (mk k)) ∨ (count ≤ k ∧ as[k]? = none) := by
  have hfound := has.getElem? k
  rw [List.getElem?_map] at hfound
  rcases Nat.lt_or_ge k count with hk | hk
  · rw [List.getElem?_range hk, Option.map_some] at hfound
    generalize as[k]? = o at hfound
    cases hfound with
    | some ha => exact .inl ⟨_, rfl, ha⟩
  · have hout : (List.range count)[k]? = none :=
      List.getElem?_eq_none (by rwa [List.length_range])
    rw [hout, Option.map_none] at hfound
    generalize as[k]? = o at hfound
    cases hfound with
    | none => exact .inr ⟨hk, rfl⟩

instance : Stays HasModel := ⟨HasModel.mono⟩

/-- A stored program stands for it. -/
theorem tells_storeModel (hfirst : M.ContainersFirst) : Tells t (storeModel M) HasModel M := by
  refine tells_storeBuiltins.bind fun u builtins hu _ hbuiltins => ?_
  refine (tells_each (S := IsParam M) (fun q => tells_storeTypeParam (M.param q)) _).bind
    fun v params hv _ hparams => ?_
  have hstore : ∀ e, Tells v (storeDeclaration (M.decl e) (M.members e)) (IsDecl M) e :=
    fun e => (tells_storeDeclaration _ _).imp fun _ _ h => ⟨h.1, h.2⟩
  refine (tells_each hstore _).bind fun w decls hw hsound hdecls => Tells.pure ?_
  have hdecl : ∀ d, IsDecl M w (decls[d.index]?.getD default) d := by
    intro d
    obtain ⟨x, hx, hfound⟩ | ⟨hout, hx⟩ := hdecls.getElem?_ids d.index
    · rw [hx]
      exact hfound
    · rw [hx]
      refine ⟨?_, (List.filter_eq_nil_iff.mpr fun e _ hcontains => ?_).symm⟩
      · rw [TreeLowering.Model.decl_eq_default hout]
        exact .of_default hsound
      · have hlt := hfirst.lt (beq_iff_eq.mp hcontains)
        exact absurd (Nat.lt_trans hlt.1 hlt.2) (Nat.not_lt.mpr hout)
  have hparam : ∀ p, IsParam M w (params[p.index]?.getD default) p := by
    intro p
    obtain ⟨x, hx, hfound⟩ | ⟨hout, hx⟩ :=
      Each.getElem?_ids (S := IsParam M) (Stays.mono hparams hw) p.index
    · rw [hx]
      exact hfound
    · rw [hx, IsParam, TreeLowering.Model.param_eq_default hout]
      exact .of_default hsound
  exact
    { decl := fun d => by
        rw [Model.decl, List.getElem?_toArray]
        exact (hdecl d).declaration
      members := fun d => by
        rw [Model.decl, List.getElem?_toArray]
        exact (hdecl d).members
      param := fun p => by
        rw [Model.param, List.getElem?_toArray]
        exact hparam p
      declCount := by
        rw [List.size_toArray, hdecls.length_eq, TreeLowering.Model.declIds, List.length_map,
          List.length_range]
      paramCount := by
        rw [List.size_toArray, hparams.length_eq, TreeLowering.Model.paramIds, List.length_map,
          List.length_range]
      builtins := hbuiltins.mono (hv.trans hw) }

end Model

/-! ## Trees -/

theorem tells_storeInfo (I : TreeLowering.Tree.Info) : Tells t (storeInfo I) HasInfo I :=
  (tells_storeTy _).bind fun _ _ _ _ hi => Tells.pure ⟨hi, rfl, rfl⟩

mutual

theorem tells_storeExpr : ∀ E : TreeLowering.Tree.Expr, Tells t (storeExpr E) HasExpr E
  | .ident I x => (tells_storeInfo I).bind fun _ _ _ _ hinfo => (Tells.intern x).bind
      fun _ _ hv _ hn => Tells.pure (.ident (Stays.mono hinfo hv) hn)
  | .integer I _ => (tells_storeInfo I).bind fun _ _ _ _ hinfo => Tells.pure (.integer hinfo)
  | .float I _ => (tells_storeInfo I).bind fun _ _ _ _ hinfo => Tells.pure (.float hinfo)
  | .string I x => (tells_storeInfo I).bind fun _ _ _ _ hinfo => (Tells.intern x).bind
      fun _ _ hv _ hn => Tells.pure (.string (Stays.mono hinfo hv) hn)
  | .character I _ => (tells_storeInfo I).bind fun _ _ _ _ hinfo => Tells.pure (.character hinfo)
  | .boolean I _ => (tells_storeInfo I).bind fun _ _ _ _ hinfo => Tells.pure (.boolean hinfo)
  | .absent I => (tells_storeInfo I).bind fun _ _ _ _ hinfo => Tells.pure (.absent hinfo)
  | .member I E x => (tells_storeInfo I).bind fun _ _ hu _ hinfo =>
      ((tells_storeExpr E).later hu).bind fun _ _ hv _ he => (Tells.intern x).bind
        fun _ _ hw _ hn =>
          Tells.pure (.member (Stays.mono hinfo (hv.trans hw)) (Stays.mono he hw) hn)
  | .call I O _ Es => (tells_storeInfo I).bind fun _ _ hu _ hinfo =>
      ((tells_storeMaybe O).later hu).bind fun _ _ hv _ ho =>
        ((tells_storeExprs Es).later (hu.trans hv)).bind fun _ _ hw _ hes =>
          Tells.pure (.call (Stays.mono hinfo (hv.trans hw)) (Stays.mono ho hw) hes)
  | .binary I _ Lhs Rhs => (tells_storeInfo I).bind fun _ _ hu _ hinfo =>
      ((tells_storeExpr Lhs).later hu).bind fun _ _ hv _ hlhs =>
        ((tells_storeExpr Rhs).later (hu.trans hv)).bind fun _ _ hw _ hrhs =>
          Tells.pure (.binary (Stays.mono hinfo (hv.trans hw)) (Stays.mono hlhs hw) hrhs)
  | .not I E => (tells_storeInfo I).bind fun _ _ hu _ hinfo =>
      ((tells_storeExpr E).later hu).bind fun _ _ hv _ he =>
        Tells.pure (.not (Stays.mono hinfo hv) he)
  | .sequence I Es => (tells_storeInfo I).bind fun _ _ hu _ hinfo =>
      ((tells_storeExprs Es).later hu).bind fun _ _ hv _ hes =>
        Tells.pure (.sequence (Stays.mono hinfo hv) hes)
  | .functionRef I _ =>
    (tells_storeInfo I).bind fun _ _ _ _ hinfo => Tells.pure (.functionRef hinfo)

theorem tells_storeExprs : ∀ Es : List TreeLowering.Tree.Expr,
    Tells t (storeExprs Es) (Each HasExpr) Es
  | [] => Tells.pure .nil
  | E :: Es => (tells_storeExpr E).bind fun _ _ hu _ he => ((tells_storeExprs Es).later hu).bind
      fun _ _ hv _ hes => Tells.pure (.cons (Stays.mono he hv) hes)

theorem tells_storeMaybe : ∀ O : Option TreeLowering.Tree.Expr,
    Tells t (storeMaybe O) (Maybe HasExpr) O
  | none => Tells.pure .none
  | some E => (tells_storeExpr E).map fun _ _ _ _ he => .some he

end

theorem tells_storeVariable (V : TreeLowering.Tree.Variable) :
    Tells t (storeVariable V) HasVariable V :=
  (Tells.intern _).bind fun _ _ _ _ hn => (tells_storeTy _).bind
    fun _ _ hv _ hi => Tells.pure ⟨hn.mono hv, hi⟩

theorem tells_storeCondition (C : TreeLowering.Tree.Condition) :
    Tells t (storeCondition C) HasCondition C := by
  cases C with
  | test E => exact (tells_storeExpr E).map fun _ _ _ _ he => .test he
  | present E => exact (tells_storeExpr E).map fun _ _ _ _ he => .present he
  | presentAs V E =>
    exact (tells_storeVariable V).bind fun _ _ _ _ hv => (tells_storeExpr E).bind
      fun _ _ hu _ he => Tells.pure (.presentAs (Stays.mono hv hu) he)
  | isOf x τ E =>
    exact (Tells.intern x).bind fun _ _ _ _ hn => (tells_storeTy τ).bind
      fun _ _ hu _ hi => (tells_storeExpr E).bind
        fun _ _ hw _ he => Tells.pure (.isOf (hn.mono (hu.trans hw)) (hi.mono hw) he)
  | nonempty V E =>
    exact (tells_storeVariable V).bind fun _ _ _ _ hv => (tells_storeExpr E).bind
      fun _ _ hu _ he => Tells.pure (.nonempty (Stays.mono hv hu) he)

theorem tells_storeBinding (B : TreeLowering.Tree.LoopBinding) :
    Tells t (storeBinding B) HasBinding B := by
  cases B with
  | value V => exact (tells_storeVariable V).map fun _ _ _ _ hv => .value hv
  | keyItem K V =>
    exact (tells_storeVariable K).bind fun _ _ _ _ hk => (tells_storeVariable V).bind
      fun _ _ hu _ hv => Tells.pure (.keyItem (Stays.mono hk hu) hv)

mutual

theorem tells_storeStmt : ∀ S : TreeLowering.Tree.Stmt, Tells t (storeStmt S) HasStmt S
  | .declare _ V O _ => (tells_storeVariable V).bind fun _ _ _ _ hv => (tells_storeMaybe O).bind
      fun _ _ hu _ ho => Tells.pure (.declare (Stays.mono hv hu) ho)
  | .assign _ x E => (Tells.intern x).bind fun _ _ _ _ hn => (tells_storeExpr E).bind
      fun _ _ hu _ he => Tells.pure (.assign (hn.mono hu) he)
  | .eval _ E => (tells_storeExpr E).map fun _ _ _ _ he => .eval he
  | .ret _ O => (tells_storeMaybe O).map fun _ _ _ _ ho => .ret ho
  | .leave _ => Tells.pure .leave
  | .branch _ C Yes No => (tells_storeCondition C).bind fun _ _ hu _ hc =>
      ((tells_storeStmts Yes).later hu).bind fun _ _ hv _ hyes =>
        ((tells_storeElse No).later (hu.trans hv)).bind fun _ _ hw _ hno =>
          Tells.pure (.branch (Stays.mono hc (hv.trans hw)) (Stays.mono hyes hw) hno)
  | .loop _ C Body => (tells_storeCondition C).bind fun _ _ hu _ hc =>
      ((tells_storeStmts Body).later hu).bind fun _ _ hv _ hbody =>
        Tells.pure (.loop (Stays.mono hc hv) hbody)
  | .each _ B E Body No => (tells_storeBinding B).bind fun _ _ hu _ hb =>
      (tells_storeExpr E).bind fun _ _ hv _ he =>
        ((tells_storeStmts Body).later (hu.trans hv)).bind fun _ _ hw _ hbody =>
          ((tells_storeElse No).later ((hu.trans hv).trans hw)).bind fun _ _ hx _ hno =>
            Tells.pure (.each (Stays.mono hb (hv.trans (hw.trans hx)))
              (Stays.mono he (hw.trans hx)) (Stays.mono hbody hx) hno)
  | .block _ Body => (tells_storeStmts Body).map fun _ _ _ _ hbody => .block hbody

theorem tells_storeStmts : ∀ Ss : List TreeLowering.Tree.Stmt,
    Tells t (storeStmts Ss) (Each HasStmt) Ss
  | [] => Tells.pure .nil
  | S :: Ss => (tells_storeStmt S).bind fun _ _ hu _ hs => ((tells_storeStmts Ss).later hu).bind
      fun _ _ hv _ hss => Tells.pure (.cons (Stays.mono hs hv) hss)

theorem tells_storeElse : ∀ O : Option (List TreeLowering.Tree.Stmt),
    Tells t (storeElse O) (Maybe (Each HasStmt)) O
  | none => Tells.pure .none
  | some Ss => (tells_storeStmts Ss).map fun _ _ _ _ hss => .some hss

end

/-- A stored function stands for it. -/
theorem tells_storeFunction (F : TreeLowering.Tree.Function) :
    Tells t (storeFunction F) HasFunction F :=
  (tells_storeStmts _).bind fun _ _ _ _ hbody => Tells.pure ⟨rfl, hbody, rfl⟩

end Tables

end TreeLowering.Shared
