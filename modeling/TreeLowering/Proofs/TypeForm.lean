import TreeLowering.Proofs.ErasureTotality
import TreeLowering.Proofs.TypeTermination
set_option autoImplicit false

/-!
# Proofs: how lowered types are put together

What the lowering writes is made of class names, type variables, placeholders
and raw forms in a few fixed ways: members, generic types and wildcards.  A
property that these ways keep holds of every lowered type, as soon as it holds
of what is written for the types that the lowering comes to.

A property may be excused by the notes taken on the way, since a missing
argument is noted where it is written as the placeholder.
-/

namespace TreeLowering

namespace Target.Ty

/-- The type is a class or interface without arguments. -/
def isClass : Ty → Bool
  | cls _ | member _ _ => true
  | _ => false

end Target.Ty

namespace TypeLowering

variable {α β : Type} {R : List Note → Prop}

/-! ## Answers and excuses -/

/-- Notes that excuse an answer do so whatever else is noted. -/
structure Excuse (R : List Note → Prop) : Prop where
  append_left : ∀ {notes more}, R notes → R (notes ++ more)
  append_right : ∀ {notes more}, R more → R (notes ++ more)

/-- Nothing is excused. -/
theorem Excuse.never : Excuse fun _ => False := ⟨id, id⟩

/-- An answer of the computation satisfies `P`, unless the notes excuse it. -/
def Ensures (R : List Note → Prop) (P : α → Prop) (x : TypeLowering α) : Prop :=
  ∀ a notes, x = some (a, notes) → P a ∨ R notes

namespace Ensures

variable {P : α → Prop} {Q : β → Prop} {x : TypeLowering α}

theorem pure {a : α} (h : P a) : Ensures R P (pure a) := by
  rintro b notes ⟨⟩
  exact .inl h

theorem bind (hR : Excuse R) {f : α → TypeLowering β} (hx : Ensures R P x)
    (hf : ∀ a, P a → Ensures R Q (f a)) : Ensures R Q (x >>= f) := by
  intro b notes h
  rw [bind_eq_andThen] at h
  cases x with
  | none => contradiction
  | some p =>
    obtain ⟨a, first⟩ := p
    cases hfa : f a with
    | none => simp [andThen, hfa] at h
    | some q =>
      obtain ⟨b', more⟩ := q
      simp only [andThen, hfa] at h
      cases h
      rcases hx a first rfl with ha | hexcused
      · exact (hf a ha b more hfa).imp_right hR.append_right
      · exact .inr (hR.append_left hexcused)

theorem map {f : α → β} (hx : Ensures R P x) (hf : ∀ a, P a → Q (f a)) :
    Ensures R Q (f <$> x) := by
  intro b notes h
  rw [map_eq_pure_bind, bind_eq_andThen] at h
  cases x with
  | none => contradiction
  | some p =>
    obtain ⟨a, first⟩ := p
    simp only [andThen, pure_eq_ret, ret, List.append_nil] at h
    cases h
    exact (hx a _ rfl).imp_left (hf a)

theorem mono {Q : α → Prop} (hx : Ensures R P x) (h : ∀ a, P a → Q a) : Ensures R Q x :=
  fun a notes hnotes => (hx a notes hnotes).imp_left (h a)

theorem and {Q : α → Prop} (hx : Ensures R P x) (hx' : Ensures R Q x) :
    Ensures R (fun a => P a ∧ Q a) x := fun a notes hnotes =>
  and_or_right.mpr ⟨hx a notes hnotes, hx' a notes hnotes⟩

/-- Without an excuse, every answer satisfies the property. -/
theorem answer {a : α} (h : Ensures (fun _ => False) P x) (ha : x.answer? = some a) : P a := by
  cases x with
  | none => contradiction
  | some p =>
    obtain ⟨b, notes⟩ := p
    cases ha
    exact (h b notes rfl).resolve_right id

end Ensures

/-! ## Formation -/

/-- The ways in which types are put together keep `T` for types and `A` for type
arguments. -/
structure Formation (R : List Note → Prop) (T A : Target.Ty → Prop) : Prop extends Excuse R where
  cls : ∀ name, T (.cls name)
  member : ∀ outer name, T outer → T (.member outer name)
  apply : ∀ base args, base.isClass = true → T base → args ≠ [] → (∀ a ∈ args, A a) →
    T (.apply base args)
  argument : ∀ t, T t → A t
  anyType : A .anyType
  subtypeOf : ∀ t, T t → A (.subtypeOf t)
  supertypeOf : ∀ t, T t → A (.supertypeOf t)
  missing : ∀ owner param, A .erroneous ∨ R [.missingArgument owner param]

/-- A type parameter, or a class or interface inside nothing but classes and
interfaces. -/
def IsClassType (t : Ty) : Prop :=
  t.isParam = true ∨ ∀ s ∈ t.segments, s.decl?.isSome = true

/-- `T` holds of what is written for the type itself: of the variable for a type
parameter, and of the placeholder where a segment cannot be written. -/
structure Leaves (T : Target.Ty → Prop) (m : Model) (t : Ty) : Prop where
  var : ∀ p, t = .param p → T (.var (m.param p).name)
  placeholder : IsClassType t ∨ T .erroneous

/-- `T` holds of what is written for the type that the lowering comes to. -/
structure Writes (T : Target.Ty → Prop) (m : Model) (t : Ty) : Prop where
  error : t = .error → T .erroneous
  shown : m.erasesToObject t = false → ∀ shown, Shown m t shown → Leaves T m shown.simplify

/-- Satisfies `T`, or is a primitive type where one may be. -/
def OrPrimitive (T : Target.Ty → Prop) (ctx : Context) (t : Target.Ty) : Prop :=
  T t ∨ ctx.allowsPrimitives = true ∧ t.isPrimitive = true

section

variable {T A : Target.Ty → Prop} {m : Model} {lower : Ty → TypeLowering Target.Ty}
  {ctx : Context}

namespace Formation

theorem object (h : Formation R T A) : T .object := h.cls _

theorem applied (h : Formation R T A) {base : Target.Ty} {args : List Target.Ty} (hbase : T base)
    (hclass : base.isClass = true) (hargs : ∀ a ∈ args, A a) : T (base.applied args) := by
  unfold Target.Ty.applied
  split
  · exact hbase
  · rename_i hempty
    exact h.apply base args hclass hbase (by simpa using hempty) hargs

/-! ## Arguments -/

theorem wildcard (h : Formation R T A) {t : Target.Ty} (v : Variance) (ht : T t) :
    A (wildcard v ctx t) := by
  unfold TypeLowering.wildcard
  split
  · exact h.argument t ht
  · cases v with
    | covariant => exact h.subtypeOf t ht
    | contravariant => exact h.supertypeOf t ht
    | invariant => exact h.argument t ht

theorem voidArgument (h : Formation R T A) (v : Variance) : A (voidArgument ctx v) := by
  have hobject : A .object := h.argument _ h.object
  unfold TypeLowering.voidArgument
  split
  · exact hobject
  · cases v with
    | covariant => exact h.anyType
    | contravariant | invariant => exact hobject

theorem viewedArgument (h : Formation R T A) (hlower : ∀ u, Ensures R T (lower u))
    (p : TypeParam) (t : Ty) :
    Ensures R (fun o => ∀ a ∈ o, A a) (viewedArgument lower ctx p t) := by
  have hfixed : ∀ {u : Target.Ty}, A u →
      Ensures R (fun o => ∀ a ∈ o, A a) (pure (some u)) := fun hu =>
    .pure (by rintro a ⟨⟩; exact hu)
  have hobject : A .object := h.argument _ h.object
  have hlowered : ∀ u, Ensures R (fun o => ∀ a ∈ o, A a) (some <$> lower u) := fun u =>
    (hlower u).map (by rintro v hv a ⟨⟩; exact h.argument v hv)
  have hwildcard : Ensures R (fun o => ∀ a ∈ o, A a)
      ((fun u => some (TypeLowering.wildcard p.variance ctx u)) <$> lower t) :=
    (hlower t).map (by rintro v hv a ⟨⟩; exact h.wildcard p.variance hv)
  unfold TypeLowering.viewedArgument
  split
  · exact hfixed (h.voidArgument p.variance)
  · split
    · split
      · exact .pure (by simp)
      · split
        · split
          · split
            · exact hlowered _
            · exact hfixed hobject
          · exact hfixed hobject
        · split
          · exact hfixed h.anyType
          · exact hwildcard
    · split
      · exact hlowered t
      · exact hwildcard

theorem argument_ensures (h : Formation R T A) (hlower : ∀ u, Ensures R T (lower u)) (owner : Ty)
    (p : ParamId) (arg : Option Ty) :
    Ensures R (fun o => ∀ a ∈ o, A a) (TypeLowering.argument m lower ctx owner p arg) := by
  cases arg with
  | none =>
    rintro a notes ⟨⟩
    exact (h.missing owner _).imp_left fun herroneous => by
      rintro a ⟨⟩
      exact herroneous
  | some a =>
    simp only [TypeLowering.argument]
    split
    · exact .pure (by simp)
    · exact h.viewedArgument hlower _ _

/-- There is one written argument for each parameter. -/
theorem arguments (h : Formation R T A) (hlower : ∀ u, Ensures R T (lower u)) (owner : Ty)
    (pairs : List (ParamId × Option Ty)) :
    Ensures R (fun o => ∀ ts ∈ o, ts.length = pairs.length ∧ ∀ a ∈ ts, A a)
      (arguments m lower ctx owner pairs) := by
  induction pairs with
  | nil => exact .pure (by simp)
  | cons pair rest ih =>
    obtain ⟨p, arg⟩ := pair
    refine (h.argument_ensures hlower owner p arg).bind h.toExcuse fun t ht => ?_
    cases t with
    | none => exact .pure (by simp)
    | some t =>
      refine ih.bind h.toExcuse fun ts hts => ?_
      cases ts with
      | none => exact .pure (by simp)
      | some ts => exact .pure (by simpa using ⟨(hts ts rfl).1, ht t rfl, (hts ts rfl).2⟩)

theorem typeArguments (h : Formation R T A) (hlower : ∀ u, Ensures R T (lower u))
    (callable : Bool) (owner : Ty) (pairs : List (ParamId × Option Ty)) :
    Ensures R (fun o => ∀ a ∈ o.getD [], A a)
      (typeArguments m lower ctx callable owner pairs) := by
  intro o notes ho
  refine (h.arguments hlower owner _ o notes ho).imp_left fun hts => ?_
  cases o with
  | none => simp
  | some ts => exact (hts ts rfl).2

/-! ## Class types -/

/-- What is around a segment is written already, except around the outermost. -/
theorem segmentBase (h : Formation R T A) (c : Chain) {around : Target.Ty} {position : Nat}
    (d : DeclId) (haround : 0 < position → T around) :
    Ensures R (fun t => T t ∧ t.isClass = true) (segmentBase m ctx c around position d) := by
  have hname : ∀ s : Spelling,
      Ensures R (fun t => T t ∧ t.isClass = true) (Target.Ty.cls <$> declName m d s) := by
    rintro s t notes ⟨⟩
    exact .inl ⟨h.cls _, rfl⟩
  unfold TypeLowering.segmentBase
  split
  · exact .pure ⟨h.cls _, rfl⟩
  · split
    · split <;> exact hname _
    · rename_i hposition
      rintro t notes ⟨⟩
      exact .inl ⟨h.member _ _ (haround (Nat.pos_of_ne_zero hposition)), rfl⟩

theorem segmentType (h : Formation R T A) (hlower : ∀ u, Ensures R T (lower u)) (c : Chain)
    {around : Target.Ty} {position : Nat} {segment : Ty}
    (hsegment : segment.decl?.isSome = true ∨ T .erroneous) (haround : 0 < position → T around) :
    Ensures R T (segmentType m lower ctx c around position segment) := by
  cases segment with
  | nominal d as o hint =>
    have hdone : ∀ args : Option (List Target.Ty), (∀ a ∈ args.getD [], A a) → Ensures R T (do
          let base ← TypeLowering.segmentBase m ctx c around position d
          pure (Target.Ty.applied base (args.getD []))) := fun args hargs =>
      (h.segmentBase c d haround).bind h.toExcuse fun base hbase =>
        .pure (h.applied hbase.1 hbase.2 hargs)
    by_cases hargs : c.firstWithArgs ≤ position
    · simp only [TypeLowering.segmentType, if_pos hargs]
      exact (h.typeArguments hlower _ _ _).bind h.toExcuse hdone
    · simp only [TypeLowering.segmentType, if_neg hargs, pure_bind]
      exact hdone none (by simp)
  | union _ | inter _ | param _ | bottom | error =>
    exact .pure (hsegment.resolve_left (by simp [Ty.decl?]))

theorem chainType (h : Formation R T A) (hlower : ∀ u, Ensures R T (lower u)) (c : Chain)
    {segments : List Ty} (hsegments : (∀ s ∈ segments, s.decl?.isSome = true) ∨ T .erroneous) :
    ∀ {position : Nat} {around : Target.Ty}, (position = 0 → segments ≠ []) →
      (0 < position → T around) →
      Ensures R T (chainType m lower ctx c position around segments) := by
  induction segments with
  | nil =>
    intro position around hstart haround
    exact .pure (haround (Nat.pos_of_ne_zero fun hzero => hstart hzero rfl))
  | cons segment rest ih =>
    intro position around _ haround
    have hsegment := hsegments.imp_left fun hall => hall segment List.mem_cons_self
    have hrest := hsegments.imp_left fun hall s hs => hall s (List.mem_cons_of_mem _ hs)
    refine (h.segmentType hlower c hsegment haround).bind h.toExcuse fun t ht => ?_
    exact ih hrest (by simp) fun _ => ht

theorem liftedType (h : Formation R T A) (hlower : ∀ u, Ensures R T (lower u)) {t : Ty}
    (ht : t.decl?.isSome = true) : Ensures R T (liftedType m lower ctx t) := by
  obtain ⟨d, hd⟩ := Option.isSome_iff_exists.mp ht
  unfold TypeLowering.liftedType
  refine (h.typeArguments hlower _ _ _).bind h.toExcuse fun args hargs => ?_
  have hdone : ∀ base : Target.Ty, T base ∧ base.isClass = true →
      Ensures R T (pure (base.applied (args.getD []))) := fun base hbase =>
    .pure (h.applied hbase.1 hbase.2 hargs)
  rw [hd]
  dsimp only
  split
  · rw [pure_bind]
    exact hdone _ ⟨h.cls _, rfl⟩
  · refine Ensures.bind (P := fun base => T base ∧ base.isClass = true) h.toExcuse ?_ hdone
    rintro base notes ⟨⟩
    exact .inl ⟨h.cls _, rfl⟩

theorem bareType (h : Formation R T A) {t : Ty} (ht : Leaves T m t) :
    Ensures R T (bareType m ctx t) := by
  cases t with
  | nominal d as o hint =>
    simp only [TypeLowering.bareType]
    split
    · exact .pure (h.cls _)
    · rintro t notes ⟨⟩
      exact .inl (h.cls _)
  | param p => exact .pure (ht.var p rfl)
  | union _ | inter _ | bottom | error =>
    refine .pure (ht.placeholder.resolve_left ?_)
    simp [IsClassType, Ty.isParam, Ty.segments, Ty.decl?]

theorem classType (h : Formation R T A) (hlower : ∀ u, Ensures R T (lower u)) {t : Ty}
    (ht : Leaves T m t.simplify) : Ensures R T (classType m lower ctx t) := by
  unfold TypeLowering.classType
  dsimp only
  split
  · rename_i hargs
    -- A type with arguments is no type parameter.
    have hsegments : (∀ s ∈ t.simplify.segments, s.decl?.isSome = true) ∨ T .erroneous := by
      refine ht.placeholder.imp_left fun hclass => hclass.resolve_left fun hparam => ?_
      obtain ⟨p, hp⟩ : ∃ p, t.simplify = .param p := by
        cases hsimple : t.simplify <;> simp_all [Ty.isParam]
      simp [hp, Ty.segments, Ty.args] at hargs
    split
    · rename_i hlifted
      refine h.liftedType hlower ?_
      unfold isLifted at hlifted
      cases hdecl : t.simplify.decl? with
      | some d => rfl
      | none => simp [hdecl] at hlifted
    · split
      · refine h.segmentType hlower _ (hsegments.imp_left fun hall => hall _ ?_)
          fun hpos => absurd hpos (by simp)
        cases t.simplify <;> simp [Ty.segments]
      · refine h.chainType hlower _ (hsegments.imp_left fun hall s hs => ?_)
          (fun _ => by simp [Ty.segments_ne_nil]) fun hpos => absurd hpos (by simp)
        exact hall s (List.mem_reverse.mp hs)
  · exact h.bareType ht

/-! ## One step -/

theorem rawForm? (h : Formation R T A) {small : Bool} {t : Ty} {raw : Target.Ty}
    (hraw : rawForm? m small t = some raw) : T raw ∨ raw.isPrimitive = true := by
  have hinteger : ∀ hint, (integerPrimitive small hint != .void) = true := by
    intro hint
    unfold integerPrimitive
    split <;> first | rfl | (cases small <;> rfl)
  have hfloat : ∀ hint, (floatPrimitive small hint != .void) = true := by
    intro hint
    unfold floatPrimitive
    split <;> first | rfl | (cases small <;> rfl)
  have hcharacter : ∀ hint, (characterPrimitive hint != .void) = true := by
    intro hint
    unfold characterPrimitive
    split <;> rfl
  unfold TypeLowering.rawForm? at hraw
  split at hraw
  · cases hraw
    exact .inl (h.cls _)
  · split at hraw
    · cases hraw
      exact .inr rfl
    · split at hraw
      · cases hraw
        exact .inr (hinteger _)
      · split at hraw
        · cases hraw
          exact .inr (hfloat _)
        · split at hraw
          · cases hraw
            exact .inr (hcharacter _)
          · contradiction

theorem writtenType (h : Formation R T A) (hlower : ∀ u, Ensures R T (lower u)) {t : Ty}
    (ht : ∀ shown, Shown m t shown → Leaves T m shown.simplify)
    (herases : m.erasesToObject t = false) :
    Ensures R (OrPrimitive T ctx) (writtenType m lower ctx t) := by
  have hclass : ∀ {shown}, Leaves T m shown.simplify →
      Ensures R (OrPrimitive T ctx) (TypeLowering.classType m lower ctx shown) := fun hshown =>
    (h.classType hlower hshown).mono fun _ => .inl
  unfold TypeLowering.writtenType
  split
  · rename_i hcomposite
    exact hclass (ht _ (.inr ⟨hcomposite, herases, rfl⟩))
  · rename_i hcomposite
    have hself := ht t (.inl ⟨rfl, by simpa using hcomposite⟩)
    split
    · exact .pure (.inl (h.cls _))
    · split
      · rename_i hposition
        split
        · rename_i raw hraw
          refine .pure ((h.rawForm? hraw).imp_right fun hprimitive => ⟨?_, hprimitive⟩)
          exact (Bool.and_eq_true_iff.mp hposition).1
        · exact hclass hself
      · split
        · exact hclass ⟨fun p hp => by contradiction, .inl (.inr (by decide))⟩
        · exact hclass hself

theorem step (h : Formation R T A) (hlower : ∀ u, Ensures R T (lower u)) {given : Ty}
    (hgiven : Writes T m (resolveBound m ctx given.collapse)) :
    Ensures R (fun o => ∀ t ∈ o, OrPrimitive T ctx t) (step m lower ctx given) := by
  by_cases herror : given.collapse = .error
  · rw [step_of_error herror]
    refine .pure ?_
    rintro t ⟨⟩
    exact .inl (hgiven.error (by rw [herror, resolveBound_error]))
  · cases herases : m.erasesToObject (resolveBound m ctx given.collapse) with
    | true =>
      rw [step_of_erases herases]
      refine .pure fun t ht => .inl ?_
      split at ht
      · contradiction
      · cases ht
        exact h.object
    | false =>
      rw [step_of_not_erases herror herases]
      exact (h.writtenType hlower (hgiven.shown herases) herases).map (by
        rintro t ht u ⟨⟩
        exact ht)

end Formation

end

end TypeLowering

/-! ## Whole types -/

namespace Env

open TypeLowering

variable {env : Env} {ctx : Context} {t u v : Ty}

/-- The lowering of `t` comes to `v`: `v` is what `t` is seen as, or what an
argument that `t` asks for comes to. -/
inductive Reaches (env : Env) : Context → Ty → Ty → Prop
  | self (ctx : Context) (t : Ty) : Reaches env ctx t (resolveBound env.model ctx t.collapse)
  | argument {ctx : Context} {t u v : Ty} (hasks : env.AsksFor ctx t u)
      (hreaches : Reaches env .typeArgument u v) : Reaches env ctx t v

section

variable {R : List Note → Prop} {T A : Target.Ty → Prop}

/-- A step lowers nothing but what it asks for. -/
theorem step_ensures_of_asked (h : Formation R T A) {lower : Ty → TypeLowering Target.Ty}
    (hlower : ∀ u, env.AsksFor ctx t u → Ensures R T (lower u))
    (ht : Writes T env.model (resolveBound env.model ctx t.collapse)) :
    Ensures R (fun o => ∀ jt ∈ o, OrPrimitive T ctx jt)
      (step env.model lower (adjust env.config ctx) t) := by
  obtain ⟨asked, hasks, hmem⟩ := env.exists_asks ctx t
  rw [hasks.congr lower (fun u => if u ∈ asked then lower u else pure .object)
    fun u hu => (if_pos hu).symm]
  have hstep : Ensures R (fun o => ∀ jt ∈ o, OrPrimitive T (adjust env.config ctx) jt)
      (step env.model (fun u => if u ∈ asked then lower u else pure .object)
        (adjust env.config ctx) t) := by
    refine h.step (fun u => ?_) (by rwa [resolveBound_adjust])
    split
    · rename_i hu
      exact hlower u ((hmem u).mpr hu)
    · exact .pure h.object
  refine hstep.mono fun o ho jt hjt => ?_
  simpa [OrPrimitive, (adjust_flags env.config ctx).2.2] using ho jt hjt

theorem argumentType_ensures (h : Formation R T A) (depth : Nat)
    (ht : ∀ v, env.Reaches .typeArgument t v → Writes T env.model v) :
    Ensures R T (argumentType env depth t) := by
  induction depth generalizing t with
  | zero =>
    rintro a notes ⟨⟩
  | succ depth ih =>
    rw [argumentType_succ]
    have hstep : Ensures R (fun o => ∀ jt ∈ o, OrPrimitive T .typeArgument jt)
        (step env.model (argumentType env depth) (adjust env.config .typeArgument) t) :=
      step_ensures_of_asked h (fun u hu => ih fun v hv => ht v (.argument hu hv))
        (ht _ (.self _ t))
    refine hstep.map fun written hwritten => ?_
    cases written with
    | none => exact h.object
    | some jt =>
      refine (hwritten jt rfl).resolve_right fun hprimitive => ?_
      exact absurd hprimitive.1 (by decide)

/-- A property that every formation keeps, and that holds of what is written for
the types that the lowering comes to, holds of the lowered type, a primitive
type apart. -/
theorem lowerType?_ensures (h : Formation R T A)
    (ht : ∀ v, env.Reaches ctx t v → Writes T env.model v) :
    Ensures R (fun o => ∀ jt ∈ o, OrPrimitive T ctx jt) (env.lowerType? t ctx) :=
  step_ensures_of_asked h
    (fun _ hu => argumentType_ensures h _ fun v hv => ht v (.argument hu hv)) (ht _ (.self _ t))

end

end Env

end TreeLowering
