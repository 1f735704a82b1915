import TreeLowering.Proofs.Behaviour.Reading
set_option autoImplicit false

/-!
# Behaviour: the test for a type parameter

A type parameter is tested by one class, which is what its first bound is written
as.  That test and the test for the bound itself are alike exactly where the bound
says of every value what the one class says.

Tests have no negation, so what they say grows with what a judge finds in a value.
Three judges are therefore enough to decide whether a type says the same as a
class: one who finds nothing else in a value, one who finds everything else, and
that one on the absent value.
-/

namespace TreeLowering.Behaviour

open Lowering (Yields)
open Target (Expr)

/-! ## Judges in order -/

namespace Judge

/-- The absent value is an instance of no class, and every other value is an
instance of the root class. -/
structure Rooted (judge : Judge) : Prop where
  absent : ∀ v cls, v.isAbsent = true → judge.isInstance v cls = false
  object : ∀ v, v.isAbsent = false → judge.isInstance v .object = true

/-- What a judge finds in a value, another one finds in another value. -/
structure Below (judge : Judge) (v : Value) (judge' : Judge) (v' : Value) : Prop where
  absent : v.isAbsent = v'.isAbsent
  isInstance : ∀ cls, judge.isInstance v cls = true → judge'.isInstance v' cls = true
  isIdentifiable : judge.isIdentifiable v = true → judge'.isIdentifiable v' = true
  isIdentifiableObject :
    judge.isIdentifiableObject v = true → judge'.isIdentifiableObject v' = true

variable {judge judge' : Judge} {v v' : Value} {env : Env}

theorem leafHolds_mono (h : Below judge v judge' v') {t : Ty}
    (hholds : judge.leafHolds env v t = true) : judge'.leafHolds env v' t = true := by
  have habsent := h.absent
  unfold leafHolds at hholds ⊢
  split_ifs at hholds ⊢
  · rfl
  · rwa [← habsent]
  · rwa [← habsent]
  · exact h.isIdentifiable hholds
  · exact h.isIdentifiableObject hholds
  · exact h.isInstance _ hholds

mutual

/-- The more is found in a value, the more types say yes to it. -/
theorem holds_mono (h : Below judge v judge' v') :
    (t : Ty) → judge.holds env v t = true → judge'.holds env v' t = true
  | .union cases => anyHolds_mono h cases
  | .inter bounds => allHold_mono h bounds
  | .bottom => id
  | .nominal _ _ _ _ => leafHolds_mono h
  | .param _ => leafHolds_mono h
  | .error => leafHolds_mono h

theorem anyHolds_mono (h : Below judge v judge' v') :
    (ts : List Ty) → judge.anyHolds env v ts = true → judge'.anyHolds env v' ts = true
  | [] => id
  | t :: ts => fun hany => by
    simp only [anyHolds, Bool.or_eq_true] at hany ⊢
    exact hany.imp (holds_mono h t) (anyHolds_mono h ts)

theorem allHold_mono (h : Below judge v judge' v') :
    (ts : List Ty) → judge.allHold env v ts = true → judge'.allHold env v' ts = true
  | [] => id
  | t :: ts => fun hall => by
    simp only [allHold, Bool.and_eq_true] at hall ⊢
    exact hall.imp (holds_mono h t) (allHold_mono h ts)

end

/-- Finds one class in a value, and the root class. -/
def only (cls : Target.Ty) : Judge where
  isInstance v c := !v.isAbsent && (c = .object || c = cls)
  isIdentifiable _ := false
  isIdentifiableObject _ := false

/-- Finds everything in a value but one class, unless that is the root class. -/
def allBut (cls : Target.Ty) : Judge where
  isInstance v c := !v.isAbsent && (c = .object || c ≠ cls)
  isIdentifiable _ := true
  isIdentifiableObject _ := true

theorem Rooted.present (hrooted : judge.Rooted) {cls : Target.Ty}
    (hcls : judge.isInstance v cls = true) : v.isAbsent = false := by
  cases habsent : v.isAbsent with
  | false => rfl
  | true =>
    rw [hrooted.absent v cls habsent] at hcls
    contradiction

theorem only_rooted (cls : Target.Ty) : (only cls).Rooted where
  absent v c h := by simp [only, h]
  object v h := by simp [only, h]

theorem allBut_rooted (cls : Target.Ty) : (allBut cls).Rooted where
  absent v c h := by simp [allBut, h]
  object v h := by simp [allBut, h]

theorem only_below {cls : Target.Ty} (hrooted : judge.Rooted) (hv : v.isAbsent = false)
    (hv' : v'.isAbsent = false) (hcls : judge.isInstance v cls = true) :
    Below (only cls) v' judge v where
  absent := hv'.trans hv.symm
  isInstance c hc := by
    obtain rfl | rfl : c = .object ∨ c = cls := by simpa [only, hv'] using hc
    · exact hrooted.object v hv
    · exact hcls
  isIdentifiable := nofun
  isIdentifiableObject := nofun

theorem below_allBut {cls : Target.Ty} (hrooted : judge.Rooted)
    (hsame : v.isAbsent = v'.isAbsent) (hcls : judge.isInstance v cls = false) :
    Below judge v (allBut cls) v' where
  absent := hsame
  isInstance c hc := by
    have hpresent : v.isAbsent = false := hrooted.present hc
    have hne : c ≠ cls := by
      rintro rfl
      rw [hcls] at hc
      contradiction
    simp [allBut, ← hsame, hpresent, hne]
  isIdentifiable _ := rfl
  isIdentifiableObject _ := rfl

end Judge

/-! ## Types that say what a class says -/

variable {env : Env} {t u b : Ty} {p q : ParamId} {cls : Target.Ty}

/-- The type says of every value whether it is an instance of the class.  One who
finds only that class in a value says yes, and one who finds everything else says
no, to an absent value too. -/
structure SaysClass (env : Env) (t : Ty) (cls : Target.Ty) : Prop where
  only : (Judge.only cls).holds env (.object 0) t = true
  allBut : cls = .object ∨ (Judge.allBut cls).holds env (.object 0) t = false
  absent : (Judge.allBut cls).holds env .absent t = false

instance (env : Env) (t : Ty) (cls : Target.Ty) : Decidable (SaysClass env t cls) :=
  decidable_of_iff (_ ∧ _ ∧ _) ⟨fun ⟨h, h', h''⟩ => ⟨h, h', h''⟩, fun ⟨h, h', h''⟩ => ⟨h, h', h''⟩⟩

theorem saysClass_iff : SaysClass env t cls ↔ ∀ judge : Judge, judge.Rooted →
    ∀ v, judge.holds env v t = judge.isInstance v cls := by
  constructor
  · intro h judge hrooted v
    cases hcls : judge.isInstance v cls with
    | true =>
      have hbelow : Judge.Below (Judge.only cls) (.object 0) judge v :=
        Judge.only_below hrooted (hrooted.present hcls) rfl hcls
      exact Judge.holds_mono hbelow t h.only
    | false =>
      refine Bool.eq_false_iff.mpr fun hholds => ?_
      cases hv : v.isAbsent with
      | true =>
        -- the value is absent for both judges, so neither finds a class in it
        have hbelow : Judge.Below judge v (Judge.allBut cls) .absent :=
          Judge.below_allBut hrooted hv hcls
        have hmore := Judge.holds_mono hbelow t hholds
        rw [h.absent] at hmore
        contradiction
      | false =>
        have hne : cls ≠ .object := by
          rintro rfl
          rw [hrooted.object v hv] at hcls
          contradiction
        have hbelow : Judge.Below judge v (Judge.allBut cls) (.object 0) :=
          Judge.below_allBut hrooted hv hcls
        have hmore := Judge.holds_mono hbelow t hholds
        rw [h.allBut.resolve_left hne] at hmore
        contradiction
  · intro h
    refine ⟨?_, ?_, ?_⟩
    · rw [h _ (Judge.only_rooted cls)]
      simp [Judge.only, Value.isAbsent]
    · rw [h _ (Judge.allBut_rooted cls)]
      exact or_iff_not_imp_left.mpr fun hne => by simp [Judge.allBut, hne]
    · rw [h _ (Judge.allBut_rooted cls)]
      rfl

/-! ## Tests that are alike -/

/-- The tests for the two types, lowered wherever, have the same value, whatever
else than the root class a present value is an instance of. -/
def TestsAlike (env : Env) (t u : Ty) : Prop :=
  ∀ (raw : String) (s s' r r' : LowerState) (code code' : Expr),
    Yields (env.typeTest raw t) s code s' → Yields (env.typeTest raw u) r code' r' →
      ∀ judge : Judge, judge.Rooted → ∀ (ρ : Locals) (v : Value), ρ.lookup raw = some v →
        judge.eval code ρ = judge.eval code' ρ

theorem exists_saysOf {raw : String} {s s' : LowerState} {code : Expr}
    (h : Yields (env.typeTest raw t) s code s') :
    ∃ k, SaysOf env raw t s.names.next k code := by
  obtain ⟨k, code', s'', hcode, _, hmeans⟩ := typeTest_draws env raw t s
  cases hcode.symm.trans h
  exact ⟨k, hmeans⟩

/-- Tests are alike where the types say the same. -/
theorem testsAlike_iff : TestsAlike env t u ↔
    ∀ judge : Judge, judge.Rooted → ∀ v, judge.holds env v t = judge.holds env v u := by
  constructor
  · intro h judge hrooted v
    obtain ⟨_, code, s', hcode, _, hmeans⟩ := typeTest_draws env "x" t (.start .empty)
    obtain ⟨_, code', r', hcode', _, hmeans'⟩ := typeTest_draws env "x" u (.start .empty)
    have heval := h "x" _ _ _ _ _ _ hcode hcode' judge hrooted [("x", v)] v rfl
    rw [hmeans.value judge _ v rfl, hmeans'.value judge _ v rfl] at heval
    simpa using heval
  · intro h raw s s' r r' code code' hcode hcode' judge hrooted ρ v hv
    obtain ⟨_, hmeans⟩ := exists_saysOf hcode
    obtain ⟨_, hmeans'⟩ := exists_saysOf hcode'
    rw [hmeans.value judge ρ v hv, hmeans'.value judge ρ v hv, h judge hrooted v]

/-! ## Type parameters and their bounds -/

/-- The test for a type parameter is made for what its first bound is written
as. -/
theorem holds_param (hbound : env.model.firstBound? p = some b) (judge : Judge) (v : Value) :
    judge.holds env v (.param p) = judge.isInstance v (env.model.rawClass b) := by
  have hclass : env.testedClass (.param p) = env.model.rawClass b := by
    have hself : (Ty.param p).collapse = .param p := rfl
    rw [Env.testedClass, hself, Model.testedAs, hbound, Option.getD_some]
  rw [← hclass]
  rfl

mutual

/-- The type with another one in place of a type parameter, outside of
arguments. -/
def putFor (p : ParamId) (b : Ty) : Ty → Ty
  | .union cases => .union (putForAll p b cases)
  | .inter bounds => .inter (putForAll p b bounds)
  | .param q => if q = p then b else .param q
  | .nominal d as o h => .nominal d as o h
  | .bottom => .bottom
  | .error => .error

/-- The types with another one in place of a type parameter. -/
def putForAll (p : ParamId) (b : Ty) : List Ty → List Ty
  | [] => []
  | t :: ts => putFor p b t :: putForAll p b ts

end

section

variable {judge : Judge} {v : Value}

mutual

/-- What stands in place of a type parameter and says the same changes nothing. -/
theorem holds_putFor (h : judge.holds env v (.param p) = judge.holds env v b) :
    (t : Ty) → judge.holds env v (putFor p b t) = judge.holds env v t
  | .union cases => anyHolds_putFor h cases
  | .inter bounds => allHold_putFor h bounds
  | .param q => by
    rw [putFor]
    split_ifs with hq
    · rw [hq, h]
    · rfl
  | .nominal _ _ _ _ | .bottom | .error => rfl

theorem anyHolds_putFor (h : judge.holds env v (.param p) = judge.holds env v b) :
    (ts : List Ty) → judge.anyHolds env v (putForAll p b ts) = judge.anyHolds env v ts
  | [] => rfl
  | t :: ts => congrArg₂ or (holds_putFor h t) (anyHolds_putFor h ts)

theorem allHold_putFor (h : judge.holds env v (.param p) = judge.holds env v b) :
    (ts : List Ty) → judge.allHold env v (putForAll p b ts) = judge.allHold env v ts
  | [] => rfl
  | t :: ts => congrArg₂ and (holds_putFor h t) (allHold_putFor h ts)

end

end

/-! ## Bounds of one kind -/

/-- What is tested by one class says what no other class says. -/
theorem saysClass_iff_of_instance {cls' : Target.Ty}
    (h : ∀ (judge : Judge) v, judge.holds env v t = judge.isInstance v cls') :
    SaysClass env t cls ↔ cls' = cls := by
  refine ⟨fun hmeans => ?_, fun heq => ?_⟩
  · have honly := hmeans.only
    have hallBut := hmeans.allBut
    simp only [h, Judge.only, Judge.allBut, Value.isAbsent, Bool.not_false, Bool.true_and,
      Bool.or_eq_true, Bool.or_eq_false_iff, decide_eq_true_eq, decide_eq_false_iff_not,
      not_not] at honly hallBut
    rcases honly with rfl | heq
    · exact (hallBut.resolve_right fun hboth => hboth.1 rfl).symm
    · exact heq
  · exact saysClass_iff.mpr fun judge _ v => by rw [h, heq]

/-- A class decides its test, unless it is one of the types that are tested in
another way.  The object type is tested in another way too, which says the same as
its class. -/
theorem saysClass_nominal_iff {d : DeclId} {as : List Ty} {o : Option Ty} {h : Option Hint} :
    SaysClass env (.nominal d as o h) (env.model.rawClass (.nominal d as o h)) ↔
      (Ty.nominal d as o h).withoutHint ∉ [Language.voidTy, Language.nothingTy,
        Language.identifiableTy, Language.identifiableObjectTy] := by
  have hleaf : ∀ (judge : Judge) v, judge.holds env v (.nominal d as o h) =
      judge.leafHolds env v (.nominal d as o h) := fun _ _ => rfl
  by_cases hvoid : (Ty.nominal d as o h).withoutHint = Language.voidTy
  · refine iff_of_false (fun hmeans => ?_) (by simp [hvoid])
    have habsent := hmeans.absent
    rw [hleaf, Judge.leafHolds_void hvoid] at habsent
    contradiction
  by_cases hnothing : (Ty.nominal d as o h).withoutHint = Language.nothingTy
  · refine iff_of_false (fun hmeans => ?_) (by simp [hnothing])
    have honly := hmeans.only
    rw [hleaf, Judge.leafHolds_nothing hnothing] at honly
    contradiction
  by_cases hidentifiable : (Ty.nominal d as o h).withoutHint = Language.identifiableTy
  · refine iff_of_false (fun hmeans => ?_) (by simp [hidentifiable])
    have honly := hmeans.only
    rw [hleaf, Judge.leafHolds_identifiable hidentifiable] at honly
    contradiction
  by_cases hobjects : (Ty.nominal d as o h).withoutHint = Language.identifiableObjectTy
  · refine iff_of_false (fun hmeans => ?_) (by simp [hobjects])
    have honly := hmeans.only
    rw [hleaf, Judge.leafHolds_identifiableObject hobjects] at honly
    contradiction
  refine iff_of_true ?_ (by simp [hvoid, hnothing, hidentifiable, hobjects])
  by_cases hobject : (Ty.nominal d as o h).withoutHint = Language.objectTy
  · rw [Model.rawClass_object hobject]
    refine saysClass_iff.mpr fun judge hrooted v => ?_
    rw [hleaf, Judge.leafHolds_object hobject]
    cases hv : v.isAbsent with
    | true => rw [hrooted.absent v _ hv]; rfl
    | false => rw [hrooted.object v hv]; rfl
  · have hnamed : (Ty.nominal d as o h).withoutHint ∉ Judge.classFree := by
      simp [Judge.classFree, hvoid, hnothing, hobject, hidentifiable, hobjects]
    refine (saysClass_iff_of_instance fun judge v => ?_).mpr rfl
    rw [hleaf, Judge.leafHolds_instance hnamed]
    rfl

/-- A type parameter decides the test only where what its own bound is written as
has the name of the parameter. -/
theorem saysClass_param_iff :
    SaysClass env (.param q) (env.model.rawClass (.param q)) ↔
      env.testedClass (.param q) = .var (env.model.param q).name := by
  rw [Model.rawClass_param]
  exact saysClass_iff_of_instance fun _ _ => rfl

/-- The tests for a type parameter and for its first bound are alike exactly where
the bound says what a single class test says.  The one may then stand for the
other inside unions and intersections.  A class says so unless it is tested in
another way, and another parameter only under the name of its own bound. -/
theorem paramTest_alike_iff (env : Env) (p : ParamId) (b : Ty)
    (hbound : env.model.firstBound? p = some b) :
    (TestsAlike env (.param p) b ↔ SaysClass env b (env.model.rawClass b)) ∧
    (TestsAlike env (.param p) b → ∀ t, TestsAlike env t (putFor p b t)) ∧
    (∀ d as o h, b = .nominal d as o h → (TestsAlike env (.param p) b ↔
      b.withoutHint ∉ [Language.voidTy, Language.nothingTy, Language.identifiableTy,
        Language.identifiableObjectTy])) ∧
    ∀ q, b = .param q → (TestsAlike env (.param p) b ↔
      env.testedClass (.param q) = .var (env.model.param q).name) := by
  have hiff : TestsAlike env (.param p) b ↔ SaysClass env b (env.model.rawClass b) := by
    rw [testsAlike_iff, saysClass_iff]
    refine forall₃_congr fun judge _ v => ?_
    rw [holds_param hbound]
    exact eq_comm
  refine ⟨hiff, fun halike t => testsAlike_iff.mpr fun judge hrooted v => ?_, ?_, ?_⟩
  · exact (holds_putFor (testsAlike_iff.mp halike judge hrooted v) t).symm
  · rintro d as o h rfl
    exact hiff.trans saysClass_nominal_iff
  · rintro q rfl
    exact hiff.trans saysClass_param_iff

/-- A class bound stands for its parameter inside a union of an intersection. -/
theorem integerParam_alike :
    Env.boundedParams.model.firstBound? ⟨10⟩ = some Language.integerTy ∧
    TestsAlike Env.boundedParams (.param ⟨10⟩) Language.integerTy ∧
    TestsAlike Env.boundedParams
      (.union [.inter [.param ⟨10⟩, Language.identifiableTy], Language.nothingTy])
      (.union [.inter [Language.integerTy, Language.identifiableTy], Language.nothingTy]) := by
  obtain ⟨-, hinside, hclass, -⟩ :=
    paramTest_alike_iff Env.boundedParams ⟨10⟩ Language.integerTy rfl
  have halike : TestsAlike Env.boundedParams (.param ⟨10⟩) Language.integerTy :=
    (hclass _ _ _ _ rfl).mpr (by decide)
  exact ⟨rfl, halike, hinside halike _⟩

/-- A parameter below the values that have an identity is tested by the object
class, and a parameter below a parameter by the other one's name. -/
theorem boundedParams_apart :
    (Env.boundedParams.model.firstBound? ⟨12⟩ = some Language.identifiableTy ∧
      ¬ TestsAlike Env.boundedParams (.param ⟨12⟩) Language.identifiableTy) ∧
    Env.boundedParams.model.firstBound? ⟨11⟩ = some (.param ⟨10⟩) ∧
      ¬ TestsAlike Env.boundedParams (.param ⟨11⟩) (.param ⟨10⟩) := by
  refine ⟨⟨rfl, fun h => ?_⟩, rfl, fun h => ?_⟩
  · have hsame := testsAlike_iff.mp h (Judge.only .object) (Judge.only_rooted _) (.object 0)
    revert hsame
    decide
  · have hsame := testsAlike_iff.mp h (Judge.only (.var "S")) (Judge.only_rooted _) (.object 0)
    revert hsame
    decide

end TreeLowering.Behaviour
