import TreeLowering.Lowering.TypeExpr
import Mathlib.Order.WellFounded
import Mathlib.Tactic.ByContra
set_option autoImplicit false

/-!
# Proofs: where the lowering of types returns

One step of the lowering asks for the lowering of some other types, and which
ones does not depend on what it is told about them.  So a type is lowered in
the end exactly when no endless chain of types starts at it, each asking for
the next.

The types that are asked for are arguments of the type itself, as they are
seen, and those shrink.  The exception is an argument that is a union or an
intersection: it is seen as its iterable shape, which may contain the very
union again.
-/

namespace TreeLowering

namespace TypeLowering

variable {α β : Type}

/-! ## Having an answer -/

/-- There is an answer. -/
def answers (x : TypeLowering α) : Bool := x.answer?.isSome

@[simp] theorem answers_pure (a : α) : (pure a : TypeLowering α).answers = true := rfl

@[simp] theorem answers_tooDeep : (tooDeep : TypeLowering α).answers = false := rfl

theorem answers_bind (x : TypeLowering α) (f : α → TypeLowering β) :
    (x >>= f).answers = true ↔ ∃ a, x.answer? = some a ∧ (f a).answers = true := by
  simp only [answers, Option.isSome_iff_exists, answer?_bind]
  constructor
  · rintro ⟨b, a, ha, hb⟩
    exact ⟨a, ha, b, hb⟩
  · rintro ⟨a, ha, b, hb⟩
    exact ⟨b, a, ha, hb⟩

@[simp] theorem answers_map (f : α → β) (x : TypeLowering α) : (f <$> x).answers = x.answers := by
  rw [answers, answers, answer?_map, Option.isSome_map]

@[simp] theorem answers_orObject (x : TypeLowering (Option Target.Ty)) :
    (orObject x).answers = x.answers :=
  answers_map _ x

theorem answers_declName (m : Model) (d : DeclId) (s : Spelling) :
    (declName m d s).answers = true := rfl

/-! ## What a computation asks for -/

/-- A computation that lowers types depends on the given types only, and on all
of them. -/
structure Asks (F : (Ty → TypeLowering Target.Ty) → TypeLowering α) (asked : List Ty) : Prop where
  congr : ∀ lower lower', (∀ u ∈ asked, lower u = lower' u) → F lower = F lower'
  answers : ∀ lower, (F lower).answers = true ↔ ∀ u ∈ asked, (lower u).answers = true

namespace Asks

variable {F : (Ty → TypeLowering Target.Ty) → TypeLowering α}
  {G : (Ty → TypeLowering Target.Ty) → α → TypeLowering β} {asked more : List Ty}

theorem const {x : TypeLowering α} (h : x.answers = true) : Asks (fun _ => x) [] :=
  ⟨fun _ _ _ => rfl, fun _ => by simp [h]⟩

theorem lower (u : Ty) : Asks (fun lower => lower u) [u] :=
  ⟨fun _ _ h => h u (by simp), fun _ => by simp⟩

theorem map (f : α → β) (h : Asks F asked) : Asks (fun lower => f <$> F lower) asked :=
  ⟨fun l l' hl => by rw [h.congr l l' hl], fun l => by rw [answers_map, h.answers l]⟩

/-- What comes after asks for the same types whatever came before. -/
theorem bind (h : Asks F asked) (k : ∀ a, Asks (fun lower => G lower a) more) :
    Asks (fun lower => F lower >>= G lower) (asked ++ more) := by
  refine ⟨fun l l' hl => ?_, fun l => ?_⟩
  · rw [h.congr l l' (fun u hu => hl u (List.mem_append_left _ hu))]
    congr 1
    funext a
    exact (k a).congr l l' (fun u hu => hl u (List.mem_append_right _ hu))
  · rw [answers_bind]
    constructor
    · rintro ⟨a, ha, hg⟩ u hu
      rcases List.mem_append.mp hu with hu | hu
      · exact (h.answers l).mp (by rw [TypeLowering.answers, ha]; rfl) u hu
      · exact ((k a).answers l).mp hg u hu
    · intro hall
      have hF := (h.answers l).mpr (fun u hu => hall u (List.mem_append_left _ hu))
      obtain ⟨a, ha⟩ := Option.isSome_iff_exists.mp hF
      exact ⟨a, ha, ((k a).answers l).mpr (fun u hu => hall u (List.mem_append_right _ hu))⟩

/-- A type without an answer is asked for exactly when it alone stops the
computation. -/
theorem mem_iff (h : Asks F asked) (u : Ty) :
    (F (fun v => if v = u then tooDeep else pure .object)).answers = false ↔ u ∈ asked := by
  rw [← Bool.not_eq_true, h.answers]
  constructor
  · intro hnot
    by_contra hmem
    refine hnot (fun v hv => ?_)
    rw [if_neg (fun hvu : v = u => hmem (hvu ▸ hv)), answers_pure]
  · intro hmem hall
    have := hall u hmem
    rw [if_pos rfl, answers_tooDeep] at this
    contradiction

end Asks

/-! ## What an argument asks for -/

variable (m : Model) (ctx : Context)

/-- The type that an argument is seen as, or a bound that stands for it in a
supertype clause. -/
def Views (p : ParamId) (arg u : Ty) : Prop :=
  ArgumentView.of m ctx arg = .as u ∨ ctx.inSupertypeClause = true ∧ u ∈ (m.param p).bounds

/-- An argument either forces the type raw, whatever it is lowered to, or is
written with the lowering of types that all satisfy `P`. -/
def Written (G : (Ty → TypeLowering Target.Ty) → TypeLowering (Option Target.Ty))
    (P : Ty → Prop) : Prop :=
  (∀ lower, G lower = pure none) ∨
    ∃ F asked, (∀ lower, G lower = some <$> F lower) ∧ Asks F asked ∧ ∀ u ∈ asked, P u

namespace Written

variable {P : Ty → Prop}

theorem raw : Written (fun _ => pure none) P := .inl fun _ => rfl

theorem noting (n : Note) (t : Target.Ty) :
    Written (fun _ => do note n; pure (some t)) P :=
  .inr ⟨fun _ => do note n; pure t, [], fun _ => by simp, .const rfl, by simp⟩

theorem fixed (t : Target.Ty) : Written (fun _ => pure (some t)) P :=
  .inr ⟨fun _ => pure t, [], fun _ => by simp, .const rfl, by simp⟩

theorem lowering {u : Ty} (f : Target.Ty → Target.Ty) (h : P u) :
    Written (fun lower => (fun v => some (f v)) <$> lower u) P :=
  .inr ⟨fun lower => f <$> lower u, [u], fun _ => by simp, (Asks.lower u).map f, by simpa⟩

end Written

theorem viewedArgument_written (p : TypeParam) (t : Ty) :
    Written (fun lower => viewedArgument lower ctx p t)
      (fun u => u = t ∨ ctx.inSupertypeClause = true ∧ u ∈ p.bounds) := by
  unfold viewedArgument
  split
  · exact .fixed _
  · split
    · split
      · exact .raw
      · split
        · rename_i hclause
          split
          · rename_i bound hbound
            split
            · exact .lowering id (.inr ⟨hclause, List.mem_of_head? hbound⟩)
            · exact .fixed _
          · exact .fixed _
        · split
          · exact .fixed _
          · exact .lowering _ (.inl rfl)
    · split
      · exact .lowering id (.inl rfl)
      · exact .lowering _ (.inl rfl)

theorem argument_written (owner : Ty) (p : ParamId) (arg : Option Ty) :
    Written (fun lower => argument m lower ctx owner p arg)
      (fun u => ∃ a, arg = some a ∧ Views m ctx p a u) := by
  cases arg with
  | none => exact .noting _ _
  | some a =>
    simp only [argument]
    split
    · exact .raw
    · rename_i t hview
      rcases viewedArgument_written ctx (m.param p) t with hraw | ⟨F, asked, hF, hasks, hviews⟩
      · exact .inl hraw
      · refine .inr ⟨F, asked, hF, hasks, fun u hu => ⟨a, rfl, ?_⟩⟩
        rcases hviews u hu with rfl | hbound
        · exact .inl hview
        · exact .inr hbound

/-! ## What a type asks for -/

theorem arguments_asks (owner : Ty) (pairs : List (ParamId × Option Ty)) :
    ∃ asked, Asks (fun lower => arguments m lower ctx owner pairs) asked ∧
      ∀ u ∈ asked, ∃ p a, (p, some a) ∈ pairs ∧ Views m ctx p a u := by
  induction pairs with
  | nil => exact ⟨[], .const rfl, by simp⟩
  | cons pair rest ih =>
    obtain ⟨p, arg⟩ := pair
    obtain ⟨more, hmore, hrest⟩ := ih
    rcases argument_written m ctx owner p arg with hraw | ⟨F, asked, hF, hasks, hviews⟩
    · refine ⟨[], ?_, by simp⟩
      simp only [arguments, hraw, pure_bind]
      exact .const rfl
    · refine ⟨asked ++ (more ++ []), ?_, fun u hu => ?_⟩
      · simp only [arguments, hF, bind_map_left]
        refine hasks.bind (fun t => hmore.bind (fun ts => ?_))
        cases ts <;> exact .const rfl
      · rw [List.append_nil] at hu
        rcases List.mem_append.mp hu with hu | hu
        · obtain ⟨a, rfl, hview⟩ := hviews u hu
          exact ⟨p, a, List.mem_cons_self, hview⟩
        · obtain ⟨q, a, hmem, hview⟩ := hrest u hu
          exact ⟨q, a, List.mem_cons_of_mem _ hmem, hview⟩

theorem mem_pairArguments {p : ParamId} {a : Ty} :
    ∀ {ps : List ParamId} {as : List Ty}, (p, some a) ∈ pairArguments ps as → a ∈ as
  | [], _, h => by simp [pairArguments] at h
  | _ :: ps, [], h => by
    have hmem : (p, some a) ∈ pairArguments ps [] := by simpa [pairArguments] using h
    have hnil : a ∈ ([] : List Ty) := mem_pairArguments hmem
    contradiction
  | _ :: ps, _ :: as, h => by
    simp only [pairArguments, List.mem_cons, Prod.mk.injEq, Option.some.injEq] at h
    rcases h with ⟨_, rfl⟩ | h
    · exact List.mem_cons_self
    · exact List.mem_cons_of_mem _ (mem_pairArguments h)

/-- The written arguments of the segments ask for views of the segments'
arguments. -/
theorem typeArguments_asks (callable : Bool) (owner : Ty) {pairs : List (ParamId × Option Ty)}
    {segments : List Ty}
    (hpairs : ∀ p a, (p, some a) ∈ pairs → ∃ s ∈ segments, a ∈ s.args) :
    ∃ asked, Asks (fun lower => typeArguments m lower ctx callable owner pairs) asked ∧
      ∀ u ∈ asked, ∃ s ∈ segments, ∃ a ∈ s.args, ∃ p, Views m ctx p a u := by
  obtain ⟨asked, hasks, hviews⟩ := arguments_asks m ctx owner (writtenArguments callable pairs)
  refine ⟨asked, hasks, fun u hu => ?_⟩
  obtain ⟨p, a, hmem, hview⟩ := hviews u hu
  have hpair : (p, some a) ∈ pairs := by
    unfold writtenArguments at hmem
    split at hmem
    · exact List.mem_of_mem_take hmem
    · exact hmem
  obtain ⟨s, hs, ha⟩ := hpairs p a hpair
  exact ⟨s, hs, a, ha, p, hview⟩

theorem answers_segmentBase (c : Chain) (around : Target.Ty) (position : Nat) (d : DeclId) :
    (segmentBase m ctx c around position d).answers = true := by
  unfold segmentBase
  split
  · rfl
  · split
    · split <;> simp [answers_declName]
    · simp [answers_declName]

/-- What a segment asks for does not depend on what is written around it. -/
theorem segmentType_asks (c : Chain) (position : Nat) (segment : Ty) :
    ∃ asked, (∀ around, Asks (fun lower =>
        segmentType m lower ctx c around position segment) asked) ∧
      ∀ u ∈ asked, ∃ a ∈ segment.args, ∃ p, Views m ctx p a u := by
  cases segment with
  | nominal d as o h =>
    have hpairs : ∀ p a, (p, some a) ∈ segmentArguments m d as →
        ∃ s ∈ [Ty.nominal d as o h], a ∈ s.args := fun p a hpair =>
      ⟨_, List.mem_singleton_self _, mem_pairArguments hpair⟩
    obtain ⟨asked, hasks, hviews⟩ :=
      typeArguments_asks m ctx (Ty.nominal d as o h).isCallable (.nominal d as o h) hpairs
    have hbase : ∀ around (args : Option (List Target.Ty)), Asks (fun _ => do
        let base ← segmentBase m ctx c around position d
        pure (Target.Ty.applied base (args.getD []))) [] := fun around args =>
      .const (by simp [answers_segmentBase])
    by_cases hargs : c.firstWithArgs ≤ position
    · refine ⟨asked ++ [], fun around => ?_, fun u hu => ?_⟩
      · simp only [segmentType, if_pos hargs]
        exact hasks.bind (hbase around)
      · obtain ⟨s, hs, a, ha, hview⟩ := hviews u (by simpa using hu)
        rw [List.mem_singleton.mp hs] at ha
        exact ⟨a, ha, hview⟩
    · refine ⟨[], fun around => ?_, by simp⟩
      simp only [segmentType, if_neg hargs, pure_bind]
      exact hbase around none
  | union _ | inter _ | param _ | bottom | error =>
    exact ⟨[], fun _ => .const rfl, by simp⟩

theorem chainType_asks (c : Chain) (segments : List Ty) : ∀ position : Nat,
    ∃ asked, (∀ around, Asks (fun lower =>
        chainType m lower ctx c position around segments) asked) ∧
      ∀ u ∈ asked, ∃ s ∈ segments, ∃ a ∈ s.args, ∃ p, Views m ctx p a u := by
  induction segments with
  | nil => exact fun _ => ⟨[], fun around => .const rfl, by simp⟩
  | cons segment rest ih =>
    intro position
    obtain ⟨asked, hasks, hviews⟩ := segmentType_asks m ctx c position segment
    obtain ⟨more, hmore, hrest⟩ := ih (position + 1)
    refine ⟨asked ++ more, fun around => ?_, fun u hu => ?_⟩
    · simp only [chainType]
      exact (hasks around).bind hmore
    · rcases List.mem_append.mp hu with hu | hu
      · exact ⟨segment, List.mem_cons_self, hviews u hu⟩
      · obtain ⟨s, hs, hview⟩ := hrest u hu
        exact ⟨s, List.mem_cons_of_mem _ hs, hview⟩

theorem mem_flatArguments {p : ParamId} {a : Ty} {segments : List Ty}
    (h : (p, some a) ∈ flatArguments m segments) : ∃ s ∈ segments, a ∈ s.args := by
  obtain ⟨s, hs, hpair⟩ := List.mem_flatMap.mp h
  cases s with
  | nominal d as o hint => exact ⟨_, hs, mem_pairArguments hpair⟩
  | union _ | inter _ | param _ | bottom | error => contradiction

theorem liftedType_asks (t : Ty) :
    ∃ asked, Asks (fun lower => liftedType m lower ctx t) asked ∧
      ∀ u ∈ asked, ∃ s ∈ t.segments, ∃ a ∈ s.args, ∃ p, Views m ctx p a u := by
  have hpairs : ∀ p a, (p, some a) ∈ flatArguments m t.segments.reverse →
      ∃ s ∈ t.segments, a ∈ s.args := fun p a hpair => by
    obtain ⟨s, hs, ha⟩ := mem_flatArguments m hpair
    exact ⟨s, List.mem_reverse.mp hs, ha⟩
  obtain ⟨asked, hasks, hviews⟩ := typeArguments_asks m ctx t.isCallable t hpairs
  refine ⟨asked ++ [], ?_, fun u hu => hviews u (by simpa using hu)⟩
  refine hasks.bind (fun args => .const ?_)
  dsimp only
  split
  · rfl
  · split
    · rfl
    · simp [answers_declName]

theorem answers_bareType (t : Ty) : (bareType m ctx t).answers = true := by
  cases t with
  | nominal d as o h =>
    simp only [bareType]
    split
    · rfl
    · simp [answers_declName]
  | union _ | inter _ | param _ | bottom | error => rfl

/-- A class type asks for views of the arguments of its segments. -/
theorem classType_asks (t : Ty) :
    ∃ asked, Asks (fun lower => classType m lower ctx t) asked ∧
      ∀ u ∈ asked, ∃ s ∈ t.simplify.segments, ∃ a ∈ s.args, ∃ p, Views m ctx p a u := by
  unfold classType
  dsimp only
  split
  · split
    · exact liftedType_asks m ctx t.simplify
    · split
      · obtain ⟨asked, hasks, hviews⟩ := segmentType_asks m ctx ⟨t.simplify, 1, 0⟩ 0 t.simplify
        refine ⟨asked, hasks _, fun u hu => ⟨t.simplify, ?_, hviews u hu⟩⟩
        cases t.simplify <;> simp [Ty.segments]
      · obtain ⟨asked, hasks, hviews⟩ :=
          chainType_asks m ctx (Chain.of m t.simplify) t.simplify.segments.reverse 0
        refine ⟨asked, hasks _, fun u hu => ?_⟩
        obtain ⟨s, hs, hview⟩ := hviews u hu
        exact ⟨s, List.mem_reverse.mp hs, hview⟩
  · exact ⟨[], .const (answers_bareType m ctx _), by simp⟩

/-- The type that is written where a type is written at all: the iterable shape
of a union or an intersection that has one, any other type itself. -/
def Shown (t shown : Ty) : Prop :=
  shown = t ∧ t.simplify.isComposite = false ∨
    t.simplify.isComposite = true ∧ m.erasesToObject t = false ∧
      shown = (m.iterableShape? t).getD t

/-- One step asks for views of the arguments of what is written. -/
theorem step_asks (given : Ty) :
    ∃ asked, Asks (fun lower => step m lower ctx given) asked ∧
      ∀ u ∈ asked, ∃ shown, Shown m (resolveBound m ctx given.collapse) shown ∧
        ∃ s ∈ shown.simplify.segments, ∃ a ∈ s.args, ∃ p, Views m ctx p a u := by
  have hclass : ∀ shown, Shown m (resolveBound m ctx given.collapse) shown →
      ∃ asked, Asks (fun lower => some <$> classType m lower ctx shown) asked ∧
        ∀ u ∈ asked, ∃ shown, Shown m (resolveBound m ctx given.collapse) shown ∧
          ∃ s ∈ shown.simplify.segments, ∃ a ∈ s.args, ∃ p, Views m ctx p a u := by
    intro shown hshown
    obtain ⟨asked, hasks, hviews⟩ := classType_asks m ctx shown
    exact ⟨asked, hasks.map some, fun u hu => ⟨shown, hshown, hviews u hu⟩⟩
  have hnone : ∀ x : Option Target.Ty,
      ∃ asked, Asks (fun _ => (pure x : TypeLowering (Option Target.Ty))) asked ∧
        ∀ u ∈ asked, ∃ shown, Shown m (resolveBound m ctx given.collapse) shown ∧
          ∃ s ∈ shown.simplify.segments, ∃ a ∈ s.args, ∃ p, Views m ctx p a u := fun x =>
    ⟨[], .const rfl, by simp⟩
  unfold step
  dsimp only
  split
  · exact hnone _
  · split
    · exact hnone _
    · rename_i herases
      split
      · rename_i hcomposite
        exact hclass _ (.inr ⟨hcomposite, by simpa using herases, rfl⟩)
      · rename_i hcomposite
        have hself : Shown m (resolveBound m ctx given.collapse)
            (resolveBound m ctx given.collapse) := .inl ⟨rfl, by simpa using hcomposite⟩
        split
        · exact hnone _
        · split
          · split
            · exact hnone _
            · exact hclass _ hself
          · split
            · obtain ⟨asked, hasks, hviews⟩ := classType_asks m ctx Language.booleanTy
              refine ⟨asked, hasks.map some, fun u hu => ?_⟩
              -- The Boolean type has no arguments.
              obtain ⟨s, hs, a, ha, _⟩ := hviews u hu
              obtain rfl : s = Language.booleanTy := List.mem_singleton.mp hs
              contradiction
            · exact hclass _ hself

end TypeLowering

namespace Env

open TypeLowering

variable (env : Env) (ctx : Context)

/-! ## Endless chains -/

/-- Lowering a type comes to an end: it has an answer at some depth. -/
def Returns (t : Ty) : Prop :=
  ∃ depth, (({ env with depth := depth } : Env).lowerType? t ctx).answers = true

/-- Lowering `t` waits for the lowering of `u` as an argument: without an
answer for `u` it has none, whatever else has one. -/
def AsksFor (t u : Ty) : Prop :=
  (step env.model (fun v => if v = u then tooDeep else pure .object)
    (adjust env.config ctx) t).answers = false

instance (t u : Ty) : Decidable (env.AsksFor ctx t u) := inferInstanceAs (Decidable (_ = _))

/-- An endless chain of types that starts with one asked for at the position,
each asking for the next as an argument. -/
def Endless (t : Ty) (chain : Nat → Ty) : Prop :=
  env.AsksFor ctx t (chain 0) ∧ ∀ n, env.AsksFor .typeArgument (chain n) (chain (n + 1))

theorem exists_asks (t : Ty) :
    ∃ asked, Asks (fun lower => step env.model lower (adjust env.config ctx) t) asked ∧
      ∀ u, env.AsksFor ctx t u ↔ u ∈ asked := by
  obtain ⟨asked, hasks, _⟩ := step_asks env.model (adjust env.config ctx) t
  exact ⟨asked, hasks, hasks.mem_iff⟩

theorem argumentType_withDepth (d depth : Nat) :
    argumentType { env with depth := d } depth = argumentType env depth := by
  induction depth with
  | zero => rfl
  | succ depth ih =>
    funext t
    rw [argumentType_succ, argumentType_succ, ih]

/-- An argument with an answer at some depth has the same one at any greater
depth. -/
theorem argumentType_mono {depth deeper : Nat} (hle : depth ≤ deeper) {t : Ty}
    (h : (argumentType env depth t).answers = true) :
    argumentType env deeper t = argumentType env depth t := by
  induction depth generalizing deeper t with
  | zero => simp [argumentType_zero] at h
  | succ depth ih =>
    obtain ⟨deeper, rfl⟩ : ∃ k, deeper = k + 1 := ⟨deeper - 1, by omega⟩
    obtain ⟨asked, hasks, _⟩ := env.exists_asks .typeArgument t
    rw [argumentType_succ, answers_orObject] at h
    have hanswers := (hasks.answers (argumentType env depth)).mp h
    rw [argumentType_succ, argumentType_succ]
    congr 1
    exact hasks.congr _ _ (fun u hu => ih (by omega) (hanswers u hu))

/-- Where every type of a list has an answer at some depth, one depth is enough
for all of them. -/
theorem exists_depth {asked : List Ty}
    (h : ∀ u ∈ asked, ∃ depth, (argumentType env depth u).answers = true) :
    ∃ depth, ∀ u ∈ asked, (argumentType env depth u).answers = true := by
  induction asked with
  | nil => exact ⟨0, by simp⟩
  | cons u rest ih =>
    obtain ⟨d, hd⟩ := h u List.mem_cons_self
    obtain ⟨d', hd'⟩ := ih (fun v hv => h v (List.mem_cons_of_mem _ hv))
    refine ⟨max d d', fun v hv => ?_⟩
    rcases List.mem_cons.mp hv with rfl | hv
    · rw [env.argumentType_mono (Nat.le_max_left d d') hd, hd]
    · rw [env.argumentType_mono (Nat.le_max_right d d') (hd' v hv), hd' v hv]

/-- An argument is lowered in the end exactly when the types that it asks for,
directly or not, do not go on forever. -/
theorem exists_argumentType_iff (t : Ty) :
    (∃ depth, (argumentType env depth t).answers = true) ↔
      Acc (fun v u => env.AsksFor .typeArgument u v) t := by
  constructor
  · rintro ⟨depth, h⟩
    induction depth generalizing t with
    | zero => simp [argumentType_zero] at h
    | succ depth ih =>
      obtain ⟨asked, hasks, hmem⟩ := env.exists_asks .typeArgument t
      rw [argumentType_succ, answers_orObject] at h
      exact ⟨t, fun u hu => ih u ((hasks.answers _).mp h u ((hmem u).mp hu))⟩
  · intro hacc
    induction hacc with
    | intro t _ ih =>
      obtain ⟨asked, hasks, hmem⟩ := env.exists_asks .typeArgument t
      obtain ⟨depth, hdepth⟩ := env.exists_depth (fun u hu => ih u ((hmem u).mpr hu))
      refine ⟨depth + 1, ?_⟩
      rw [argumentType_succ, answers_orObject]
      exact (hasks.answers _).mpr hdepth

theorem returns_iff_acc (t : Ty) :
    env.Returns ctx t ↔
      ∀ u, env.AsksFor ctx t u → Acc (fun v u => env.AsksFor .typeArgument u v) u := by
  obtain ⟨asked, hasks, hmem⟩ := env.exists_asks ctx t
  unfold Returns lowerType?
  simp only [argumentType_withDepth]
  constructor
  · rintro ⟨depth, h⟩ u hu
    exact (env.exists_argumentType_iff u).mp ⟨depth, (hasks.answers _).mp h u ((hmem u).mp hu)⟩
  · intro hacc
    obtain ⟨depth, hdepth⟩ := env.exists_depth
      (fun u hu => (env.exists_argumentType_iff u).mpr (hacc u ((hmem u).mpr hu)))
    exact ⟨depth, (hasks.answers _).mpr hdepth⟩

theorem returns_iff_no_endless (t : Ty) :
    env.Returns ctx t ↔ ¬ ∃ chain, env.Endless ctx t chain := by
  rw [returns_iff_acc]
  constructor
  · rintro hacc ⟨chain, hfirst, hnext⟩
    exact not_acc_iff_exists_descending_chain.mpr ⟨chain, rfl, hnext⟩ (hacc _ hfirst)
  · intro hnot u hu
    by_contra hacc
    obtain ⟨chain, rfl, hnext⟩ := not_acc_iff_exists_descending_chain.mp hacc
    exact hnot ⟨chain, hu, hnext⟩

end Env

/-! ## The parts of a type -/

namespace Ty

mutual

/-- The type and all types inside it. -/
def parts : Ty → List Ty
  | nominal d as o h => nominal d as o h :: (partsAll as ++ partsAround o)
  | union ts => union ts :: partsAll ts
  | inter ts => inter ts :: partsAll ts
  | t => [t]

/-- The parts of each type of a list. -/
def partsAll : List Ty → List Ty
  | [] => []
  | t :: ts => parts t ++ partsAll ts

/-- The parts of a qualifying type. -/
def partsAround : Option Ty → List Ty
  | none => []
  | some t => parts t

end

/-- How many parts a type has. -/
def size (t : Ty) : Nat := t.parts.length

theorem self_mem_parts (t : Ty) : t ∈ t.parts := by
  cases t <;> simp [parts]

theorem size_pos (t : Ty) : 0 < t.size := List.length_pos_of_mem t.self_mem_parts

theorem parts_sublist_of_mem {t : Ty} {ts : List Ty} (h : t ∈ ts) :
    t.parts.Sublist (partsAll ts) := by
  induction ts with
  | nil => contradiction
  | cons u us ih =>
    rcases List.mem_cons.mp h with rfl | h
    · exact List.sublist_append_left _ _
    · exact (ih h).trans (List.sublist_append_right _ _)

theorem partsAll_filter_sublist (p : Ty → Bool) (ts : List Ty) :
    (partsAll (ts.filter p)).Sublist (partsAll ts) := by
  induction ts with
  | nil => exact .refl _
  | cons t ts ih =>
    rw [List.filter_cons]
    split
    · exact (List.Sublist.refl t.parts).append ih
    · exact ih.trans (List.sublist_append_right _ _)

mutual

theorem segment_parts_sublist : ∀ (t : Ty), ∀ s ∈ t.segments, s.parts.Sublist t.parts
  | nominal d as o h, s, hs => by
    rcases List.mem_cons.mp (by simpa [segments] using hs) with rfl | hs
    · exact .refl _
    · exact (segmentAround_parts_sublist o s hs).trans
        ((List.sublist_append_right _ _).trans (List.sublist_cons_self _ _))
  | union _, s, hs | inter _, s, hs | param _, s, hs | bottom, s, hs | error, s, hs => by
    simp only [segments, List.mem_singleton] at hs
    subst hs
    exact .refl _

theorem segmentAround_parts_sublist :
    ∀ (o : Option Ty), ∀ s ∈ segmentsAround o, s.parts.Sublist (partsAround o)
  | none, s, hs => by simp [segmentsAround] at hs
  | some t, s, hs => segment_parts_sublist t s (by simpa [segmentsAround] using hs)

end

/-- An argument has fewer parts than the type it belongs to, and they are parts
of that type. -/
theorem arg_parts_sublist {s a : Ty} (h : a ∈ s.args) :
    a.parts.Sublist s.parts ∧ a.size < s.size := by
  cases s with
  | nominal d as o hint =>
    have hsub := (parts_sublist_of_mem (by simpa [args] using h : a ∈ as)).trans
      (List.sublist_append_left (partsAll as) (partsAround o))
    refine ⟨hsub.trans (List.sublist_cons_self _ _), ?_⟩
    have := hsub.length_le
    simp only [size, parts, List.length_cons]
    omega
  | union _ | inter _ | param _ | bottom | error => contradiction

theorem collapse_parts_sublist (t : Ty) : t.collapse.parts.Sublist t.parts := by
  unfold collapse
  split
  · exact (parts_sublist_of_mem List.mem_cons_self).trans (List.sublist_cons_self _ _)
  · exact (parts_sublist_of_mem List.mem_cons_self).trans (List.sublist_cons_self _ _)
  · exact .refl _

end Ty

/-! ## Types without an iterable shape inside -/

namespace Model

variable {m : Model}

/-- No union or intersection in the type has an iterable shape. -/
def Shapeless (m : Model) (t : Ty) : Prop :=
  ∀ c ∈ t.parts, c.isComposite = true → m.iterableShape? c = none

instance (m : Model) (t : Ty) : Decidable (m.Shapeless t) :=
  inferInstanceAs (Decidable (∀ c ∈ t.parts, _))

/-- A type without an iterable shape inside that is no larger than another
one. -/
def Reduces (m : Model) (t u : Ty) : Prop := m.Shapeless u ∧ u.size ≤ t.size

theorem Shapeless.sublist {t u : Ty} (ht : m.Shapeless t) (h : u.parts.Sublist t.parts) :
    m.Reduces t u :=
  ⟨fun c hc => ht c (h.subset hc), h.length_le⟩

theorem Reduces.trans {t u v : Ty} (h : m.Reduces t u) (h' : m.Reduces u v) : m.Reduces t v :=
  ⟨h'.1, Nat.le_trans h'.2 h.2⟩

/-- A type with no type inside it and that is no union or intersection. -/
theorem reduces_leaf {u : Ty} (t : Ty) (h : u.parts = [u]) (hc : u.isComposite = false) :
    m.Reduces t u := by
  refine ⟨fun c hmem hcomposite => ?_, ?_⟩
  · rw [h, List.mem_singleton] at hmem
    rw [hmem, hc] at hcomposite
    contradiction
  · have := t.size_pos
    simp only [Ty.size, h, List.length_singleton]
    exact this

/-- The cases that are not absent have the shape of the whole union. -/
theorem Shapeless.presentUnion {cases : List Ty} {a b : Ty} {rest : List Ty}
    (h : m.Shapeless (.union cases)) (hpresent : Ty.presentCases cases = a :: b :: rest) :
    m.Reduces (.union cases) (.union (a :: b :: rest)) := by
  have hsub := Ty.partsAll_filter_sublist (fun t => !t.isOf Language.nothing) cases
  rw [show cases.filter _ = a :: b :: rest from hpresent] at hsub
  refine ⟨fun c hc hcomposite => ?_, ?_⟩
  · rcases List.mem_cons.mp hc with rfl | hc
    · have hagain : Ty.presentCases (a :: b :: rest) = a :: b :: rest := by
        rw [← hpresent, Ty.presentCases, Ty.presentCases, List.filter_filter]
        simp
      have hwhole := h (.union cases) (Ty.self_mem_parts _) rfl
      simp only [iterableShape?, Ty.definite, hpresent] at hwhole
      simpa only [iterableShape?, Ty.definite, hagain] using hwhole
    · exact h c (List.mem_cons_of_mem _ (hsub.subset hc)) hcomposite
  · simp only [Ty.size, Ty.parts, List.length_cons]
    have := hsub.length_le
    omega

theorem Shapeless.presentCase {cases : List Ty} {only : Ty} (h : m.Shapeless (.union cases))
    (hpresent : Ty.presentCases cases = [only]) : m.Reduces (.union cases) only := by
  have hmem : only ∈ Ty.presentCases cases := hpresent ▸ List.mem_singleton_self only
  exact h.sublist ((Ty.parts_sublist_of_mem (List.mem_filter.mp hmem).1).trans
    (List.sublist_cons_self _ _))

theorem Shapeless.collapse {t : Ty} (h : m.Shapeless t) : m.Reduces t t.collapse :=
  h.sublist t.collapse_parts_sublist

theorem Shapeless.nonNull {t : Ty} (h : m.Shapeless t) : m.Reduces t t.nonNull := by
  unfold Ty.nonNull
  split
  · split
    · exact reduces_leaf _ rfl rfl
    · split
      · exact reduces_leaf _ rfl rfl
      · exact h.sublist (.refl _)
  · rename_i cases
    split
    · exact reduces_leaf _ rfl rfl
    · rename_i only hpresent
      exact h.presentCase hpresent
    · rename_i hnil hone
      rcases hpresent : Ty.presentCases cases with _ | ⟨only, _ | ⟨second, rest⟩⟩
      · exact absurd hpresent hnil
      · exact absurd hpresent (hone only)
      · exact h.presentUnion hpresent
  · exact h.sublist (.refl _)

theorem Shapeless.withoutHint {t : Ty} (h : m.Shapeless t) : m.Reduces t t.withoutHint := by
  cases t with
  | nominal d as o hint =>
    refine ⟨fun c hc hcomposite => ?_, Nat.le_refl _⟩
    rcases List.mem_cons.mp hc with rfl | hc
    · contradiction
    · exact h c (List.mem_cons_of_mem _ hc) hcomposite
  | union _ | inter _ | param _ | bottom | error => exact h.sublist (.refl _)

/-- Without its absent value a type reduces, unless a type parameter was left
alone. -/
theorem Shapeless.definite {t : Ty} (h : m.Shapeless t) :
    (∃ p, t.definite = .inter [.param p, Language.objectTy]) ∨ m.Reduces t t.definite := by
  unfold Ty.definite
  split
  · refine .inr ?_
    split
    · exact reduces_leaf _ rfl rfl
    · split
      · exact reduces_leaf _ rfl rfl
      · exact h.sublist (.refl _)
  · rename_i cases
    split
    · exact .inr (reduces_leaf _ rfl rfl)
    · rename_i only hpresent
      split
      · exact .inr (reduces_leaf _ rfl rfl)
      · split
        · rename_i hparam
          cases only with
          | param p => exact .inl ⟨p, rfl⟩
          | nominal _ _ _ _ | union _ | inter _ | bottom | error => contradiction
        · exact .inr ((h.presentCase hpresent).trans (h.presentCase hpresent).1.withoutHint)
    · rename_i hnil hone
      rcases hpresent : Ty.presentCases cases with _ | ⟨only, _ | ⟨second, rest⟩⟩
      · exact absurd hpresent hnil
      · exact absurd hpresent (hone only)
      · exact .inr (h.presentUnion hpresent)
  · exact .inr (h.sublist (.refl _))

theorem Shapeless.simplify {t : Ty} (h : m.Shapeless t) : m.Reduces t t.simplify := by
  unfold Ty.simplify
  extract_lets present only
  -- A type parameter left alone is in an intersection that is larger than the union around it.
  have honly : (∃ p, only = .inter [.param p, Language.objectTy]) ∨ m.Reduces t only := by
    unfold only present
    split
    · rcases h.definite with ⟨p, hp⟩ | hdefinite
      · exact .inl ⟨p, by rw [hp]; rfl⟩
      · exact .inr (hdefinite.trans hdefinite.1.collapse)
    · exact .inr h.collapse
  rcases honly with ⟨p, hp⟩ | honly
  · rw [hp]
    exact reduces_leaf t (u := .param p) rfl rfl
  · clear_value only
    split
    · split
      · exact reduces_leaf _ rfl rfl
      · exact honly
    · exact honly

/-- Without an iterable shape inside, a union or an intersection erases. -/
theorem Shapeless.shown_eq {t shown : Ty} (h : m.Shapeless t)
    (hshown : TypeLowering.Shown m t shown) : shown = t := by
  rcases hshown with ⟨rfl, _⟩ | ⟨hcomposite, herases, _⟩
  · rfl
  · have hshape := h.simplify.1 t.simplify (Ty.self_mem_parts _) hcomposite
    unfold erasesToObject at herases
    split at herases <;> simp_all [Ty.isComposite]

/-- An argument without an iterable shape inside is seen as a reduced type. -/
theorem Shapeless.view {ctx : Context} {a u : Ty} (h : m.Shapeless a)
    (hview : ArgumentView.of m ctx a = .as u) : m.Reduces a u := by
  have hboolean : ∀ v, m.Reduces a v → m.Reduces a (ArgumentView.widenBoolean m v) := by
    intro v hv
    unfold ArgumentView.widenBoolean
    split
    · exact reduces_leaf _ rfl rfl
    · exact hv
  unfold ArgumentView.of at hview
  extract_lets only present at hview
  have hpresent : m.Reduces a present := by
    unfold present
    split
    · exact h.collapse.trans h.collapse.1.nonNull
    · exact h.collapse
  split at hview
  · rename_i hcomposite
    rw [hpresent.1 present (Ty.self_mem_parts _) hcomposite] at hview
    dsimp only at hview
    split at hview
    · contradiction
    · cases hview
      exact hboolean _ hpresent
  · cases hview
    exact hboolean _ hpresent

/-- The bounds of all type parameters are without an iterable shape inside. -/
def ShapelessBounds (m : Model) : Prop := ∀ p, ∀ b ∈ (m.param p).bounds, m.Shapeless b

theorem shapelessBounds_iff :
    m.ShapelessBounds ↔
      ∀ i ∈ List.range m.paramCount, ∀ b ∈ (m.param ⟨i⟩).bounds, m.Shapeless b := by
  constructor
  · exact fun h i _ => h ⟨i⟩
  · exact fun h p b hb => h p.index (index_of_bound hb) b hb

instance (m : Model) : Decidable m.ShapelessBounds := decidable_of_iff' _ shapelessBounds_iff

end Model

namespace Env

open TypeLowering

variable {env : Env}

/-- What a type without an iterable shape inside asks for is without one, and
smaller where the type is an argument itself. -/
theorem AsksFor.shapeless {ctx : Context} {t u : Ty} (hbounds : env.model.ShapelessBounds)
    (ht : env.model.Shapeless t) (h : env.AsksFor ctx t u) :
    env.model.Shapeless u ∧ (ctx = .typeArgument → u.size < t.size) := by
  obtain ⟨asked, hasks, hviews⟩ := step_asks env.model (adjust env.config ctx) t
  obtain ⟨shown, hshown, s, hs, a, ha, p, hview⟩ := hviews u ((hasks.mem_iff u).mp h)
  have hresolved :
      env.model.Shapeless (resolveBound env.model (adjust env.config ctx) t.collapse) := by
    unfold resolveBound
    split
    · split
      · rename_i q _
        cases hb : env.model.firstBound? q with
        | none => exact (Model.reduces_leaf t rfl rfl).1
        | some bound => exact hbounds q bound (List.mem_of_head? hb)
      · exact ht.collapse.1
    · exact ht.collapse.1
  obtain rfl := hresolved.shown_eq hshown
  have hsimple := hresolved.simplify
  have hsegment := hsimple.1.sublist (Ty.segment_parts_sublist _ s hs)
  have harg := hsegment.1.sublist (Ty.arg_parts_sublist ha).1
  rcases hview with hview | ⟨hclause, hbound⟩
  · have hu := harg.1.view hview
    refine ⟨hu.1, ?_⟩
    rintro rfl
    -- An argument's own parameters are not resolved, so nothing grows on the way.
    have hplain :
        resolveBound env.model (adjust env.config .typeArgument) t.collapse = t.collapse :=
      if_neg (by unfold adjust; split <;> decide)
    rw [hplain] at hsimple
    calc u.size ≤ a.size := hu.2
      _ < s.size := (Ty.arg_parts_sublist ha).2
      _ ≤ t.collapse.size := Nat.le_trans hsegment.2 (by rw [hplain]; exact hsimple.2)
      _ ≤ t.size := ht.collapse.2
  · refine ⟨hbounds p u hbound, ?_⟩
    rintro rfl
    have hnone : (adjust env.config .typeArgument).inSupertypeClause = false := by
      unfold adjust
      split <;> decide
    rw [hnone] at hclause
    contradiction

theorem acc_of_shapeless (hbounds : env.model.ShapelessBounds) {t : Ty}
    (ht : env.model.Shapeless t) : Acc (fun v u => env.AsksFor .typeArgument u v) t := by
  induction hsize : t.size using Nat.strongRecOn generalizing t with
  | ind n ih =>
    refine ⟨t, fun u hu => ?_⟩
    have hless := hu.shapeless hbounds ht
    exact ih u.size (hsize ▸ hless.2 rfl) hless.1 rfl

theorem returns_of_shapeless (hbounds : env.model.ShapelessBounds) {t : Ty}
    (ht : env.model.Shapeless t) (ctx : Context) : env.Returns ctx t :=
  (env.returns_iff_acc ctx t).mpr fun _ hu =>
    acc_of_shapeless hbounds (hu.shapeless hbounds ht).1

end Env

/-! ## Acyclic models -/

/-- What a type is an instantiation of, or the parameter that it is. -/
inductive TyHead where
  | decl (d : DeclId)
  | param (p : ParamId)
  deriving DecidableEq, Repr, Inhabited

/-- The declaration or the parameter at the head of a type. -/
def Ty.head? : Ty → Option TyHead
  | .nominal d _ _ _ => some (.decl d)
  | .param p => some (.param p)
  | _ => none

namespace Model

/-- Declarations and type parameters can be ranked so that the head of each
supertype ranks below its declaration, and the head of each bound below its
parameter. -/
def Acyclic (m : Model) : Prop :=
  ∃ rank : TyHead → Nat,
    (∀ d, ∀ t ∈ (m.decl d).supertypes, ∀ h ∈ t.head?, rank h < rank (.decl d)) ∧
      ∀ p, ∀ b ∈ (m.param p).bounds, ∀ h ∈ b.head?, rank h < rank (.param p)

/-- `class A satisfies Iterable<A>` and `class B satisfies Iterable<B>`. -/
def selfIterable : Model where
  decls := #[
    { Declaration.bare "A" .cls "demo" none with
      extended := some Language.objectTy
      satisfied := [.of Language.iterable [.of ⟨22⟩ []]] },
    { Declaration.bare "B" .cls "demo" none with
      extended := some Language.objectTy
      satisfied := [.of Language.iterable [.of ⟨23⟩ []]] }]
  params := #[]

/-- Declarations below type parameters, each in the order of their numbers. -/
def indexRank (m : Model) : TyHead → Nat
  | .decl d => d.index
  | .param p => m.declCount + p.index

/-- A finite check that supertypes and bounds only lead to what comes earlier. -/
theorem acyclic_of_indexRank {m : Model}
    (hdecls : ∀ i ∈ List.range m.declCount, ∀ t ∈ (m.decl ⟨i⟩).supertypes, ∀ h ∈ t.head?,
      m.indexRank h < m.indexRank (.decl ⟨i⟩))
    (hparams : ∀ i ∈ List.range m.paramCount, ∀ b ∈ (m.param ⟨i⟩).bounds, ∀ h ∈ b.head?,
      m.indexRank h < m.indexRank (.param ⟨i⟩)) : m.Acyclic := by
  exact ⟨m.indexRank, fun d t ht h hh => hdecls d.index (index_of_supertype ht) t ht h hh,
    fun p b hb h hh => hparams p.index (index_of_bound hb) b hb h hh⟩

theorem selfIterable_acyclic : selfIterable.Acyclic :=
  acyclic_of_indexRank (by decide) (by decide)

end Model

namespace Env

/-- The type `A|B` of `selfIterable`. -/
def selfUnion : Ty := .union [.of ⟨22⟩ [], .of ⟨23⟩ []]

/-- The iterable shape of `A|B` is `Iterable<A|B>`, of which the argument is
seen as its own iterable shape again. -/
theorem selfUnion_endless :
    (⟨Model.selfIterable, .standard, 0⟩ : Env).Endless .plain selfUnion
      (fun _ => .of Language.iterable [selfUnion]) := by
  have hagain : (⟨Model.selfIterable, .standard, 0⟩ : Env).AsksFor .typeArgument
      (.of Language.iterable [selfUnion]) (.of Language.iterable [selfUnion]) := by decide
  exact ⟨by decide, fun _ => hagain⟩

/-! ## Where lowering returns -/

/-- The lowering of a type returns exactly when no endless chain of arguments
starts at it.  In particular it returns wherever no union or intersection in
the type or in a bound has an iterable shape. -/
theorem lowerType?_returns_iff (env : Env) (ctx : Context) (t : Ty) :
    (env.Returns ctx t ↔ ¬ ∃ chain, env.Endless ctx t chain) ∧
      (env.model.ShapelessBounds → env.model.Shapeless t → env.Returns ctx t) :=
  ⟨env.returns_iff_no_endless ctx t, fun hbounds ht => returns_of_shapeless hbounds ht ctx⟩

/-- An entry from optional strings to numbers is lowered. -/
theorem numberEntry_returns :
    Model.new.ShapelessBounds ∧
      (Env.of .new .standard).Returns .plain (.of Language.entry
        [.optional Language.stringTy, .union [Language.integerTy, Language.floatTy]]) :=
  have hbounds : Model.new.ShapelessBounds := by decide
  ⟨hbounds, (lowerType?_returns_iff (Env.of .new .standard) .plain _).2 hbounds (by decide)⟩

/-- In an acyclic model, lowering the union of two classes that are iterables of
themselves has no answer at any depth. -/
theorem selfUnion_never_returns :
    Model.selfIterable.Acyclic ∧
      ∀ depth, ((⟨Model.selfIterable, .standard, depth⟩ : Env).lowerType? selfUnion .plain).answers
        = false := by
  refine ⟨Model.selfIterable_acyclic, fun depth => ?_⟩
  by_contra hanswers
  have hreturns : (⟨Model.selfIterable, .standard, 0⟩ : Env).Returns .plain selfUnion :=
    ⟨depth, by simpa using hanswers⟩
  exact (returns_iff_no_endless _ _ _).mp hreturns ⟨_, selfUnion_endless⟩

end Env

end TreeLowering
