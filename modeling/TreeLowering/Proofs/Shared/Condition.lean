import TreeLowering.Proofs.Shared.Expression
import TreeLowering.Shared.Statement
set_option autoImplicit false

/-!
# Proofs: conditions lowered over shared tables

Type tests and conditions over tables track those among types and texts.  A test goes
into the cases and bounds of a type, whose positions are smaller than the type's own.
-/

namespace TreeLowering.Shared

open Tables Tabled
open TreeLowering.Shared.Lowering (Tracks)
open Shared.Target (Expr Stmt)

namespace Tables

variable {t u : Tables} {i : TypeIdx} {τ : Ty} {is : List TypeIdx} {τs : List Ty} {n raw : Name}
  {x Raw : String}

/-! ## Type tests -/

theorem Each.foldTests (op : TreeLowering.Target.BinaryOp) {tests : List Expr}
    {Tests : List TreeLowering.Target.Expr} (h : Each PrintsExpr t tests Tests) {e : Expr}
    {F : TreeLowering.Target.Expr} (hfirst : t.PrintsExpr e F) :
    t.PrintsExpr (tests.foldl (.binary op) e) (Tests.foldl (.binary op) F) := by
  induction h generalizing e F with
  | nil => exact hfirst
  | cons hnext _ ih => exact ih (.binary op hfirst hnext)

theorem Each.combineTests (op : TreeLowering.Target.BinaryOp) {tests : List Expr}
    {Tests : List TreeLowering.Target.Expr} (h : Each PrintsExpr t tests Tests) :
    t.PrintsExpr (combineTests op tests) (TreeLowering.Env.combineTests op Tests) := by
  cases h with
  | nil => exact .bool _
  | cons hfirst hrest => exact Each.foldTests op hrest hfirst

theorem tells_parts (hi : t.HasTy i τ) :
    Tells t (nodeAt i) (fun t n τ => t.Holds n τ ∧ ∀ j ∈ n.parts, j.index < i.index) τ :=
  Tells.reading fun _ hu hsound =>
    ⟨(hi.mono hu).holds hsound, fun _ hj => (hi.mono hu).lt_of_mem hsound hj⟩

theorem tracks_testsWith {E : TreeLowering.Env} {test : TypeIdx → Lowering Expr}
    (htest : ∀ j ∈ is, ∀ σ, t.HasTy j σ →
      Tracks E.model t (test j) PrintsExpr (TreeLowering.Env.typeTest E Raw σ))
    (his : Each HasTy t is τs) :
    Tracks E.model t (Env.testsWith test is) (Each PrintsExpr)
      (TreeLowering.Env.typeTests E Raw τs) := by
  induction his with
  | nil => exact .pure .nil
  | cons hi _ ih =>
    refine (htest _ List.mem_cons_self _ hi).bind fun u first First hu _ hfirst => ?_
    refine ((ih fun j hj => htest j (List.mem_cons_of_mem _ hj)).later hu).bind
      fun v rest Rest hv _ hrest => .pure ?_
    exact .cons (Stays.mono hfirst hv) hrest

namespace HasEnv

variable {env : Env} {E : TreeLowering.Env}
variable (he : t.HasEnv env E)
include he

theorem leafTest (hraw : t.HasName raw Raw) (hi : t.HasTy i τ) :
    Tracks E.model t (env.leafTest raw i) PrintsExpr (E.leafTest Raw τ) := by
  refine .tells hi.withoutHint fun u plain hu hsound hplain => ?_
  replace he := he.mono hu
  replace hi := hi.mono hu
  replace hraw := hraw.mono hu
  have hb := he.model.builtins
  refine .ite_iff (hplain.eq_iff hb.void hsound) (fun _ => ?_) fun _ => ?_
  · refine (Tracks.fresh _).bind fun v tmp Tmp hv _ htmp => ?_
    refine .tells tells_object fun w object hw _ hobject => .pure ?_
    have hsubject := hraw.mono (hv.trans hw)
    exact .letIn (.cons (.declareFinal (htmp.mono hw) hobject (.ident hsubject)) .nil) (.bool true)
  refine .ite_iff (hplain.eq_iff hb.nothing hsound)
    (fun _ => .pure (.binary _ (.ident hraw) .null)) fun _ => ?_
  refine .ite_iff (hplain.eq_iff hb.object hsound)
    (fun _ => .pure (.binary _ (.ident hraw) .null)) fun _ => ?_
  refine .ite_iff (hplain.eq_iff hb.identifiable hsound)
    (fun _ => .of_tells (tells_static _ _ (.cons (.ident hraw) .nil))) fun _ => ?_
  refine .ite_iff (hplain.eq_iff hb.identifiableObject hsound)
    (fun _ => .of_tells (tells_static _ _ (.cons (.ident hraw) .nil))) fun _ => ?_
  refine (he.lowerType _ hi).bind fun v cls Cls hv _ hcls => .pure ?_
  exact .instanceOf (.ident (hraw.mono hv)) hcls

theorem typeTestWithin {fuel : Nat} (hraw : t.HasName raw Raw) (hi : t.HasTy i τ)
    (hfuel : i.index < fuel) :
    Tracks E.model t (env.typeTestWithin raw fuel i) PrintsExpr
      (TreeLowering.Env.typeTest E Raw τ) := by
  induction fuel generalizing i τ t with
  | zero => exact absurd hfuel (Nat.not_lt_zero _)
  | succ fuel ih =>
    refine .tells (tells_parts hi) fun u n hu _ hn => ?_
    obtain ⟨hnode, hless⟩ := hn
    replace he := he.mono hu
    replace hraw := hraw.mono hu
    replace hi := hi.mono hu
    have hparts : ∀ j ∈ n.parts, ∀ σ, u.HasTy j σ → Tracks E.model u
        (env.typeTestWithin raw fuel j) PrintsExpr (TreeLowering.Env.typeTest E Raw σ) :=
      fun j hj σ hσ =>
        ih he hraw hσ (Nat.lt_of_lt_of_le (hless j hj) (Nat.le_of_lt_succ hfuel))
    cases hnode with
    | union hcases =>
      show Tracks E.model u (combineTests .or <$> _) _ _
      rw [TreeLowering.Env.typeTest, ← map_eq_pure_bind]
      exact (tracks_testsWith hparts hcases).map fun _ _ _ _ _ htests => htests.combineTests _
    | inter hbounds =>
      show Tracks E.model u (combineTests .and <$> _) _ _
      rw [TreeLowering.Env.typeTest, ← map_eq_pure_bind]
      exact (tracks_testsWith hparts hbounds).map fun _ _ _ _ _ htests => htests.combineTests _
    | bottom => exact .pure (.bool false)
    | nominal _ _ =>
      rw [TreeLowering.Env.typeTest]
      exact he.leafTest hraw hi
    | param =>
      rw [TreeLowering.Env.typeTest]
      exact he.leafTest hraw hi
    | error =>
      rw [TreeLowering.Env.typeTest]
      exact he.leafTest hraw hi

theorem typeTest (hraw : t.HasName raw Raw) (hi : t.HasTy i τ) :
    Tracks E.model t (env.typeTest raw i) PrintsExpr (TreeLowering.Env.typeTest E Raw τ) :=
  he.typeTestWithin hraw hi (Nat.lt_succ_self _)

end HasEnv

/-! ## Conditions -/

/-- The narrowed binding, in the tables. -/
structure HasNarrowed (t : Tables) (a : Narrowed) (b : TreeLowering.Narrowed) : Prop where
  source : t.HasName a.source b.source
  synthetic : t.HasName a.synthetic b.synthetic
  binding : t.PrintsStmt a.binding b.binding

/-- The lowered condition, in the tables. -/
structure HasLowered (t : Tables) (a : LoweredCondition) (b : TreeLowering.LoweredCondition) :
    Prop where
  setup : Each PrintsStmt t a.setup b.setup
  test : t.PrintsExpr a.test b.test
  narrowed : Maybe HasNarrowed t a.narrowed b.narrowed

/-- The binding's name and its declaration. -/
structure HasSubject (t : Tables) (a : Name × Stmt) (b : String × TreeLowering.Target.Stmt) :
    Prop where
  name : t.HasName a.1 b.1
  binding : t.PrintsStmt a.2 b.2

instance : Stays HasNarrowed :=
  ⟨fun h hu => ⟨h.source.mono hu, h.synthetic.mono hu, Stays.mono h.binding hu⟩⟩

instance : Stays HasLowered :=
  ⟨fun h hu => ⟨Stays.mono h.setup hu, Stays.mono h.test hu, Stays.mono h.narrowed hu⟩⟩

instance : Stays HasSubject := ⟨fun h hu => ⟨h.name.mono hu, Stays.mono h.binding hu⟩⟩

namespace HasLowered

variable {c : LoweredCondition} {C : TreeLowering.LoweredCondition} {yes : List Stmt}
  {Yes : List TreeLowering.Target.Stmt}

theorem plain {test : Expr} {Test : TreeLowering.Target.Expr} (h : t.PrintsExpr test Test) :
    t.HasLowered (.plain test) (.plain Test) :=
  ⟨.nil, h, .none⟩

theorem isPlain (h : t.HasLowered c C) : c.isPlain = C.isPlain := by
  obtain ⟨hsetup, -, hnarrowed⟩ := h
  unfold LoweredCondition.isPlain TreeLowering.LoweredCondition.isPlain
  generalize c.setup = setup, C.setup = Setup, c.narrowed = narrowed, C.narrowed = Narrowed
    at hsetup hnarrowed
  cases hsetup <;> cases hnarrowed <;> rfl

theorem branch (h : t.HasLowered c C) (hyes : Each PrintsStmt t yes Yes)
    {no : Option (List Stmt)} {No : Option (List TreeLowering.Target.Stmt)}
    (hno : Maybe (Each PrintsStmt) t no No) :
    Each PrintsStmt t (c.branch yes no) (C.branch Yes No) :=
  h.setup.append (.cons (.branch h.test hyes hno) .nil)

theorem loop (h : t.HasLowered c C) (hbody : Each PrintsStmt t yes Yes) :
    t.PrintsStmt (c.loop yes) (C.loop Yes) := by
  unfold LoweredCondition.loop TreeLowering.LoweredCondition.loop
  rw [h.isPlain]
  split
  · exact .whileLoop h.test hbody
  · refine .whileLoop (.bool true) ((h.setup.append (.cons ?_ .nil)).append hbody)
    exact .branch (.not h.test) (.cons .leave .nil) .none

end HasLowered

theorem HasNarrowed.guarded {M : TreeLowering.Model} {a : Option Narrowed}
    {b : Option TreeLowering.Narrowed} (h : Maybe HasNarrowed t a b)
    {block : Lowering (List Stmt)}
    {Block : TreeLowering.Lowering (List TreeLowering.Target.Stmt)}
    (hblock : Tracks M t block (Each PrintsStmt) Block) :
    Tracks M t (Lowering.guarded a block) (Each PrintsStmt)
      (TreeLowering.Lowering.guarded b Block) := by
  cases h with
  | none => exact hblock
  | some h =>
    refine (Tracks.withReplacement h.source h.synthetic hblock).bind
      fun u body Body hu _ hbody => .pure ?_
    exact .cons (Stays.mono h.binding hu) hbody

theorem HasName.isEmpty_eq (hn : t.HasName n x) (ht : t.Sound) : n.isEmpty = x.isEmpty := by
  have hempty : t.HasName .empty "" := ht.names.empty
  rw [Bool.eq_iff_iff, String.isEmpty_iff, ← hn.eq_iff hempty ht, Name.isEmpty, beq_iff_eq]
  exact ⟨congrArg Name.mk, congrArg Name.index⟩

theorem tracks_requireSubject {M : TreeLowering.Model} (hn : t.HasName n x) :
    Tracks M t (Env.requireSubject n) Same (TreeLowering.Env.requireSubject x) := by
  intro s S hs hreads
  show Lowering.Ends M Same s.tables
    (.ok (if n.isEmpty then .error (.missingSubjectVariable s.span) else .ok (), s))
    (if x.isEmpty then .error (.missingSubjectVariable S.span) else .ok (), S)
  rw [(hn.mono hs).isEmpty_eq hreads.sound, hreads.span]
  split
  · exact .fail nofun (.refl _) hreads
  · exact .answer (.refl _) hreads rfl

namespace HasEnv

variable {env : Env} {E : TreeLowering.Env} {e : Tree.Expr} {F : TreeLowering.Tree.Expr}
variable (he : t.HasEnv env E)
include he

theorem rawSubject (hn : t.HasName n x) (h : t.HasExpr e F) :
    Tracks E.model t (env.rawSubject n e) HasSubject (E.rawSubject x F) := by
  refine (Tracks.freshFor hn).bind fun u raw Raw hu _ hraw => ?_
  refine ((he.mono hu).lowerType .boxed (h.ty.mono hu)).bind fun v ty Ty hv _ hty => ?_
  replace hu := hu.trans hv
  refine ((he.mono hu).lowerExpr (Stays.mono h hu) .boxed).bind
    fun w init Init hw _ hinit => .pure ?_
  replace hraw := hraw.mono (hv.trans hw)
  exact ⟨hraw, .declareFinal hraw (Stays.mono hty hw) hinit⟩

theorem narrow (hraw : t.HasName raw Raw) (hn : t.HasName n x) (hi : t.HasTy i τ) :
    Tracks E.model t (env.narrow raw n i) HasNarrowed (E.narrow Raw x τ) := by
  refine (Tracks.freshFor hn).bind fun u synthetic Synthetic hu _ hsynthetic => ?_
  refine ((he.mono hu).lowerType .boxed (hi.mono hu)).bind fun v boxed Boxed hv _ hboxed => ?_
  replace hsynthetic := hsynthetic.mono hv
  replace hu := hu.trans hv
  refine ((he.mono hu).valueForm (hi.mono hu)).bind fun w form Form hw _ hform => ?_
  obtain rfl : form = Form := hform
  replace hboxed := Stays.mono hboxed hw
  replace hsynthetic := hsynthetic.mono hw
  replace hu := hu.trans hw
  replace he := he.mono hu
  replace hn := hn.mono hu
  replace hi := hi.mono hu
  have hvalue : w.PrintsExpr (.cast boxed (.ident raw)) (.cast Boxed (.ident Raw)) :=
    .cast hboxed (.ident (hraw.mono hu))
  have hkept : w.HasNarrowed ⟨n, synthetic, .declareFinal synthetic boxed (.cast boxed (.ident raw))⟩
      ⟨x, Synthetic, .declareFinal Synthetic Boxed (.cast Boxed (.ident Raw))⟩ :=
    ⟨hn, hsynthetic, .declareFinal hsynthetic hboxed hvalue⟩
  cases form with
  | boxed => exact .pure hkept
  | asIs => exact .pure hkept
  | raw =>
    refine (he.lowerType .plain hi).bind fun z ty Ty hz _ hty => ?_
    refine ((he.mono hz).unboxValue (Stays.mono hvalue hz) (hi.mono hz)).bind
      fun z' init Init hz' _ hinit => .pure ?_
    have hsynthetic := hsynthetic.mono (hz.trans hz')
    exact ⟨hn.mono (hz.trans hz'), hsynthetic, .declareFinal hsynthetic (Stays.mono hty hz') hinit⟩

theorem nonemptyTest (hraw : t.HasName raw Raw) :
    Tracks E.model t (env.nonemptyTest raw) PrintsExpr (.ofType (E.nonemptyTest Raw)) := by
  refine .tells (he.model.declaredType _) fun u own hu _ hown => ?_
  refine ((he.mono hu).lowerType _ hown).typed_bind fun v cls Cls hv _ hcls => ?_
  have hsubject := PrintsExpr.ident (hraw.mono (hu.trans hv))
  refine .tells ((PrintsExpr.cast hcls hsubject).get _) fun w empty hw _ hempty => .typed_pure ?_
  exact .binary _ (.instanceOf (Stays.mono hsubject hw) (Stays.mono hcls hw)) (.not hempty)

/-- A lowered condition. -/
theorem lowerCondition {c : Tree.Condition} {C : TreeLowering.Tree.Condition}
    (h : t.HasCondition c C) :
    Tracks E.model t (env.lowerCondition c) HasLowered (E.lowerCondition C) := by
  cases h with
  | test h => exact (he.lowerExpr h .raw).bind fun _ _ _ _ _ htest => .pure (.plain htest)
  | present h =>
    exact (he.lowerExpr h .boxed).bind
      fun _ _ _ _ _ hsubject => .pure (.plain (.binary _ hsubject .null))
  | presentAs hv h =>
    refine (he.rawSubject hv.name h).bind fun u a b hu _ hsubject => ?_
    refine ((he.mono hu).narrow hsubject.name (hv.name.mono hu) (hv.ty.mono hu)).bind
      fun w narrowed Narrowed hw _ hnarrowed => .pure ?_
    exact ⟨.cons (Stays.mono hsubject.binding hw) .nil,
      .binary _ (.ident (hsubject.name.mono hw)) .null, .some hnarrowed⟩
  | isOf hn hi h =>
    refine (tracks_requireSubject hn).bind fun u _ _ hu _ _ => ?_
    refine ((he.mono hu).rawSubject (hn.mono hu) (Stays.mono h hu)).bind
      fun v a b hv _ hsubject => ?_
    replace hu := hu.trans hv
    refine ((he.mono hu).typeTest hsubject.name (hi.mono hu)).bind fun w test Test hw _ htest => ?_
    replace hu := hu.trans hw
    refine ((he.mono hu).narrow (hsubject.name.mono hw) (hn.mono hu) (hi.mono hu)).bind
      fun z narrowed Narrowed hz _ hnarrowed => .pure ?_
    exact ⟨.cons (Stays.mono hsubject.binding (hw.trans hz)) .nil, Stays.mono htest hz,
      .some hnarrowed⟩
  | nonempty hv h =>
    refine (he.rawSubject hv.name h).bind fun u a b hu _ hsubject => ?_
    refine ((he.mono hu).nonemptyTest hsubject.name).bind fun w test Test hw _ htest => ?_
    replace hu := hu.trans hw
    refine ((he.mono hu).narrow (hsubject.name.mono hw) (hv.name.mono hu) (hv.ty.mono hu)).bind
      fun z narrowed Narrowed hz _ hnarrowed => .pure ?_
    exact ⟨.cons (Stays.mono hsubject.binding (hw.trans hz)) .nil, Stays.mono htest hz,
      .some hnarrowed⟩

end HasEnv

end Tables

end TreeLowering.Shared
