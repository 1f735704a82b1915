import TreeLowering.Proofs.TypeForm
set_option autoImplicit false

/-!
# Proofs: what holds of every part of a type

A property that holds of all parts of a type holds of all parts of whatever the
lowering makes of the type, given that it holds of unions, intersections and the
types that the lowering puts in by itself, and that declared supertypes and
bounds bring nothing else in.  This is proved once here: for the simplification,
for supertypes and iterable shapes, for what arguments are seen as, and in the
end for all types that the lowering comes to.
-/

namespace TreeLowering

namespace Ty

variable {Q : Ty → Prop}

/-- All parts of the type satisfy `Q`. -/
def Every (Q : Ty → Prop) (t : Ty) : Prop := ∀ c ∈ t.parts, Q c

/-! ## Parts by the form of a type -/

theorem forall_partsAll {ts : List Ty} : (∀ c ∈ partsAll ts, Q c) ↔ ∀ t ∈ ts, t.Every Q := by
  induction ts with
  | nil => simp [partsAll]
  | cons t ts ih =>
    rw [partsAll, List.forall_mem_append, List.forall_mem_cons, ih]
    rfl

theorem every_union {ts : List Ty} :
    (union ts).Every Q ↔ Q (union ts) ∧ ∀ t ∈ ts, t.Every Q := by
  unfold Every
  rw [parts, List.forall_mem_cons, forall_partsAll]
  rfl

theorem every_inter {ts : List Ty} :
    (inter ts).Every Q ↔ Q (inter ts) ∧ ∀ t ∈ ts, t.Every Q := by
  unfold Every
  rw [parts, List.forall_mem_cons, forall_partsAll]
  rfl

theorem every_nominal {d : DeclId} {as : List Ty} {o : Option Ty} {h : Option Hint} :
    (nominal d as o h).Every Q ↔
      Q (nominal d as o h) ∧ (∀ a ∈ as, a.Every Q) ∧ ∀ q ∈ o, q.Every Q := by
  have haround : (∀ c ∈ partsAround o, Q c) ↔ ∀ q ∈ o, q.Every Q := by
    cases o with
    | none => simp [partsAround]
    | some q => simp [partsAround, Every]
  unfold Every
  rw [parts, List.forall_mem_cons, List.forall_mem_append, forall_partsAll, haround]
  rfl

/-- A type without types inside. -/
theorem every_leaf {t : Ty} (hleaf : t.parts = [t]) : t.Every Q ↔ Q t := by
  simp [Every, hleaf]

theorem Every.self {t : Ty} (h : t.Every Q) : Q t := h t t.self_mem_parts

theorem Every.sublist {t u : Ty} (ht : t.Every Q) (h : u.parts.Sublist t.parts) : u.Every Q :=
  fun c hc => ht c (h.subset hc)

theorem Every.collapse {t : Ty} (h : t.Every Q) : t.collapse.Every Q :=
  h.sublist t.collapse_parts_sublist

theorem Every.segment {t s : Ty} (h : t.Every Q) (hs : s ∈ t.segments) : s.Every Q :=
  h.sublist (t.segment_parts_sublist s hs)

theorem Every.arg {t a : Ty} (h : t.Every Q) (ha : a ∈ t.args) : a.Every Q :=
  h.sublist (arg_parts_sublist ha).1

/-! ## Properties kept by simplification -/

/-- `Q` holds of unions and intersections, whatever their members, of the types
that the lowering puts in, and of a type without its hint as with it. -/
structure Partwise (Q : Ty → Prop) : Prop where
  union : ∀ ts, Q (.union ts)
  inter : ∀ ts, Q (.inter ts)
  bottom : Q .bottom
  object : Q Language.objectTy
  boolean : Q Language.booleanTy
  hint : ∀ d as o h, Q (.nominal d as o h) → Q (.nominal d as o none)

namespace Partwise

variable {t : Ty}

theorem every_bottom (hQ : Partwise Q) : Ty.bottom.Every Q := (every_leaf rfl).mpr hQ.bottom

theorem every_object (hQ : Partwise Q) : Language.objectTy.Every Q :=
  (every_leaf rfl).mpr hQ.object

theorem every_boolean (hQ : Partwise Q) : Language.booleanTy.Every Q :=
  (every_leaf rfl).mpr hQ.boolean

theorem withoutHint (hQ : Partwise Q) (h : t.Every Q) : t.withoutHint.Every Q := by
  cases t with
  | nominal d as o hint =>
    obtain ⟨hself, hinside⟩ := every_nominal.mp h
    exact every_nominal.mpr ⟨hQ.hint d as o hint hself, hinside⟩
  | union _ | inter _ | param _ | bottom | error => exact h

theorem presentCases (hQ : Partwise Q) {cases : List Ty} (h : (Ty.union cases).Every Q) :
    (Ty.union (Ty.presentCases cases)).Every Q :=
  every_union.mpr ⟨hQ.union _, fun t ht => (every_union.mp h).2 t (List.mem_filter.mp ht).1⟩

theorem sole (hQ : Partwise Q) {cases : List Ty} {only : Ty} (h : (Ty.union cases).Every Q)
    (hpresent : Ty.presentCases cases = [only]) : only.Every Q :=
  (every_union.mp (hQ.presentCases h)).2 only (by simp [hpresent])

theorem nonNull (hQ : Partwise Q) (h : t.Every Q) : t.nonNull.Every Q := by
  unfold Ty.nonNull
  split
  · split
    · exact hQ.every_object
    · split
      · exact hQ.every_bottom
      · exact h
  · split
    · exact hQ.every_bottom
    · rename_i only hpresent
      exact hQ.sole h hpresent
    · exact hQ.presentCases h
  · exact h

theorem definite (hQ : Partwise Q) (h : t.Every Q) : t.definite.Every Q := by
  unfold Ty.definite
  split
  · split
    · exact hQ.every_object
    · split
      · exact hQ.every_bottom
      · exact h
  · split
    · exact hQ.every_bottom
    · rename_i only hpresent
      have honly := hQ.sole h hpresent
      split
      · exact hQ.every_object
      · split
        · refine every_inter.mpr ⟨hQ.inter _, ?_⟩
          simp [honly, hQ.every_object]
        · exact hQ.withoutHint honly
    · exact hQ.presentCases h
  · exact h

theorem bareParam (h : t.Every Q) : t.bareParam.Every Q := by
  unfold Ty.bareParam
  split
  · split
    · exact (every_inter.mp h).2 _ List.mem_cons_self
    · exact h
  · exact h

theorem simplify (hQ : Partwise Q) (h : t.Every Q) : t.simplify.Every Q := by
  cases hoptional : t.isOptional with
  | true =>
    rw [simplify_of_optional hoptional]
    exact bareParam (hQ.definite h).collapse
  | false =>
    rw [simplify_of_not_optional hoptional]
    exact bareParam h.collapse

end Partwise

/-! ## Joins and meets -/

theorem Partwise.join (hQ : Partwise Q) {ts : List Ty} (h : ∀ t ∈ ts, t.Every Q) :
    (Ty.join ts).Every Q := by
  have hdistinct : ∀ t ∈ distinct (ts.filter (· ≠ .bottom)), t.Every Q := fun t ht =>
    h t (List.mem_filter.mp (mem_distinct.mp ht)).1
  unfold Ty.join
  split
  · exact hQ.every_bottom
  · rename_i t hsole
    exact hdistinct t (hsole ▸ List.mem_singleton_self t)
  · exact every_union.mpr ⟨hQ.union _, hdistinct⟩

theorem Partwise.meet (hQ : Partwise Q) (herror : Q .error) {ts : List Ty}
    (h : ∀ t ∈ ts, t.Every Q) : (Ty.meet ts).Every Q := by
  have hdistinct : ∀ t ∈ distinct ts, t.Every Q := fun t ht => h t (mem_distinct.mp ht)
  unfold Ty.meet
  split
  · exact (every_leaf rfl).mpr herror
  · rename_i t hsole
    exact hdistinct t (hsole ▸ List.mem_singleton_self t)
  · exact every_inter.mpr ⟨hQ.inter _, hdistinct⟩

/-! ## Replacing type parameters -/

/-- The type parameter occurs in the type. -/
def Mentions (t : Ty) (p : ParamId) : Prop := param p ∈ t.parts

mutual

/-- A part of a type in which type parameters were replaced is part of what a
parameter was replaced by, or was there and had its own parameters replaced. -/
theorem mem_parts_replace (f : ParamId → Ty) {c : Ty} :
    ∀ {t : Ty}, c ∈ (t.replace f).parts → (∃ p, t.Mentions p ∧ c ∈ (f p).parts) ∨
      ∃ b ∈ t.parts, b.isParam = false ∧ c = b.replace f
  | nominal d as o h, hc => by
    rw [replace, parts] at hc
    rcases List.mem_cons.mp hc with rfl | hc
    · exact .inr ⟨nominal d as o h, self_mem_parts _, rfl, by rw [replace]⟩
    · have hinside : ∀ {b}, b ∈ partsAll as ∨ b ∈ partsAround o →
          b ∈ (nominal d as o h).parts := fun hb => by
        rw [parts]
        exact List.mem_cons_of_mem _ (List.mem_append.mpr hb)
      rcases List.mem_append.mp hc with hc | hc
      · rcases mem_partsAll_replaceAll f hc with ⟨p, hp, hcp⟩ | ⟨b, hb, hbc⟩
        · exact .inl ⟨p, hinside (.inl hp), hcp⟩
        · exact .inr ⟨b, hinside (.inl hb), hbc⟩
      · rcases mem_partsAround_replaceOuter f hc with ⟨p, hp, hcp⟩ | ⟨b, hb, hbc⟩
        · exact .inl ⟨p, hinside (.inr hp), hcp⟩
        · exact .inr ⟨b, hinside (.inr hb), hbc⟩
  | union ts, hc => by
    rw [replace, parts] at hc
    rcases List.mem_cons.mp hc with rfl | hc
    · exact .inr ⟨union ts, self_mem_parts _, rfl, by rw [replace]⟩
    · rcases mem_partsAll_replaceAll f hc with ⟨p, hp, hcp⟩ | ⟨b, hb, hbc⟩
      · exact .inl ⟨p, List.mem_cons_of_mem _ hp, hcp⟩
      · exact .inr ⟨b, List.mem_cons_of_mem _ hb, hbc⟩
  | inter ts, hc => by
    rw [replace, parts] at hc
    rcases List.mem_cons.mp hc with rfl | hc
    · exact .inr ⟨inter ts, self_mem_parts _, rfl, by rw [replace]⟩
    · rcases mem_partsAll_replaceAll f hc with ⟨p, hp, hcp⟩ | ⟨b, hb, hbc⟩
      · exact .inl ⟨p, List.mem_cons_of_mem _ hp, hcp⟩
      · exact .inr ⟨b, List.mem_cons_of_mem _ hb, hbc⟩
  | param p, hc => by
    rw [replace] at hc
    exact .inl ⟨p, self_mem_parts _, hc⟩
  | bottom, hc => by
    rw [replace, parts, List.mem_singleton] at hc
    · exact .inr ⟨bottom, self_mem_parts _, rfl, by rw [hc, replace]⟩
    all_goals simp
  | error, hc => by
    rw [replace, parts, List.mem_singleton] at hc
    · exact .inr ⟨error, self_mem_parts _, rfl, by rw [hc, replace]⟩
    all_goals simp

theorem mem_partsAll_replaceAll (f : ParamId → Ty) {c : Ty} :
    ∀ {ts : List Ty}, c ∈ partsAll (replaceAll f ts) →
      (∃ p, param p ∈ partsAll ts ∧ c ∈ (f p).parts) ∨
        ∃ b ∈ partsAll ts, b.isParam = false ∧ c = b.replace f
  | [], hc => by simp [replaceAll, partsAll] at hc
  | t :: ts, hc => by
    rw [replaceAll, partsAll] at hc
    rcases List.mem_append.mp hc with hc | hc
    · rcases mem_parts_replace f hc with ⟨p, hp, hcp⟩ | ⟨b, hb, hbc⟩
      · exact .inl ⟨p, List.mem_append_left _ hp, hcp⟩
      · exact .inr ⟨b, List.mem_append_left _ hb, hbc⟩
    · rcases mem_partsAll_replaceAll f hc with ⟨p, hp, hcp⟩ | ⟨b, hb, hbc⟩
      · exact .inl ⟨p, List.mem_append_right _ hp, hcp⟩
      · exact .inr ⟨b, List.mem_append_right _ hb, hbc⟩

theorem mem_partsAround_replaceOuter (f : ParamId → Ty) {c : Ty} :
    ∀ {o : Option Ty}, c ∈ partsAround (replaceOuter f o) →
      (∃ p, param p ∈ partsAround o ∧ c ∈ (f p).parts) ∨
        ∃ b ∈ partsAround o, b.isParam = false ∧ c = b.replace f
  | none, hc => by simp [replaceOuter, partsAround] at hc
  | some t, hc => by
    rw [replaceOuter, partsAround] at hc
    exact mem_parts_replace f hc

end

theorem every_replace {f : ParamId → Ty} {t : Ty} (hparam : ∀ p, t.Mentions p → (f p).Every Q)
    (hother : ∀ b ∈ t.parts, b.isParam = false → Q (b.replace f)) : (t.replace f).Every Q := by
  intro c hc
  rcases mem_parts_replace f hc with ⟨p, hp, hcp⟩ | ⟨b, hb, hbparam, rfl⟩
  · exact hparam p hp c hcp
  · exact hother b hb hbparam

end Ty

/-! ## Arguments of nominal types -/

theorem Subst.mem_of_get?_insertAll {s : Subst} {p : ParamId} {u : Ty} :
    ∀ {entries : List (ParamId × Ty)}, (s.insertAll entries).get? p = some u →
      s.get? p = some u ∨ (p, u) ∈ entries := by
  intro entries
  unfold Subst.insertAll
  induction entries generalizing s with
  | nil => exact .inl
  | cons e rest ih =>
    intro h
    rcases ih h with h | h
    · rw [get?_insert] at h
      split at h
      · rename_i hp
        cases h
        exact .inr (hp ▸ List.mem_cons_self)
      · exact .inl h
    · exact .inr (List.mem_cons_of_mem _ h)

theorem Subst.get?_insertAll_eq_none {s : Subst} {p : ParamId} {entries : List (ParamId × Ty)} :
    (s.insertAll entries).get? p = none ↔ s.get? p = none ∧ p ∉ entries.map Prod.fst := by
  unfold Subst.insertAll
  induction entries generalizing s with
  | nil => simp
  | cons e rest ih =>
    rw [List.foldl_cons, ih, get?_insert]
    by_cases hp : p = e.1 <;> simp [hp]

namespace Model

variable {m : Model}

/-- What a type gives for a parameter is an argument of one of its segments. -/
theorem mem_args_of_substitution {t u : Ty} {p : ParamId}
    (h : (m.substitution t).get? p = some u) : ∃ s ∈ t.segments, u ∈ s.args := by
  unfold substitution at h
  generalize t.segments = segments at h ⊢
  induction segments with
  | nil => simp [Subst.get?_empty] at h
  | cons segment rest ih =>
    rw [List.foldr_cons] at h
    have hrest (h : (rest.foldr m.bindSegment .empty).get? p = some u) :
        ∃ s ∈ segment :: rest, u ∈ s.args := by
      obtain ⟨s, hs, hu⟩ := ih h
      exact ⟨s, List.mem_cons_of_mem _ hs, hu⟩
    cases segment with
    | nominal d as o hint =>
      rcases Subst.mem_of_get?_insertAll h with h | h
      · exact hrest h
      · exact ⟨_, List.mem_cons_self, (List.of_mem_zip (List.mem_filter.mp h).1).2⟩
    | union _ | inter _ | param _ | bottom | error => exact hrest h

/-- The parameters that a segment has arguments for. -/
def boundParams (m : Model) (segment : Ty) : List ParamId :=
  match segment with
  | .nominal d as _ _ =>
    (((m.decl d).typeParams.zip as).filter (fun e => !(m.param e.1).sequenced)).map Prod.fst
  | _ => []

/-- A type gives nothing for a parameter that none of its segments has an
argument for. -/
theorem substitution_eq_none {t : Ty} {p : ParamId} :
    (m.substitution t).get? p = none ↔ ∀ s ∈ t.segments, p ∉ m.boundParams s := by
  unfold substitution
  generalize t.segments = segments
  induction segments with
  | nil => simp [Subst.get?_empty]
  | cons segment rest ih =>
    rw [List.foldr_cons, List.forall_mem_cons, ← ih]
    cases segment with
    | nominal d as o hint =>
      exact Subst.get?_insertAll_eq_none.trans and_comm
    | union _ | inter _ | param _ | bottom | error =>
      exact (and_iff_right List.not_mem_nil).symm

/-! ## Supertypes -/

/-- What holds of every type that a climb goes through (`P`), and of every
instantiation of `target` that one finds (`Q`). -/
structure Climbs (m : Model) (target : DeclId) (P Q : Ty → Prop) : Prop where
  arrive : ∀ as o h, P (.nominal target as o h) → Q (.nominal target as o h)
  supertype : ∀ d as o h, P (.nominal d as o h) → ∀ s ∈ (m.decl d).supertypes,
    P (s.subst (m.substitution (.nominal d as o h)))
  bound : ∀ p, P (.param p) → ∀ b ∈ (m.param p).bounds, P b
  union : ∀ ts, P (.union ts) → ∀ t ∈ ts, P t
  inter : ∀ ts, P (.inter ts) → ∀ t ∈ ts, P t
  join : ∀ found, (∀ t ∈ found, Q t) → ∀ t, m.joinInstances target found = some t → Q t

namespace Climbs

variable {target : DeclId} {P Q : Ty → Prop} {up : Ty → Option Ty}

mutual

theorem climb (h : m.Climbs target P Q) (hup : ∀ t u, P t → up t = some u → Q u) :
    ∀ t u, P t → m.climb up target t = some u → Q u
  | .nominal d as o hint, u, ht, hu => by
    rw [Model.climb] at hu
    split at hu
    · rename_i hd
      cases hu
      subst hd
      exact h.arrive as o hint ht
    · obtain ⟨s, hs, hfound⟩ := List.exists_of_findSome?_eq_some hu
      exact hup _ u (h.supertype d as o hint ht s hs) hfound
  | .param p, u, ht, hu => by
    rw [Model.climb] at hu
    obtain ⟨b, hb, hfound⟩ := List.exists_of_findSome?_eq_some hu
    exact hup b u (h.bound p ht b hb) hfound
  | .inter ts, u, ht, hu => by
    rw [Model.climb] at hu
    exact climbAny h hup ts u (h.inter ts ht) hu
  | .union ts, u, ht, hu => by
    rw [Model.climb] at hu
    obtain ⟨found, hfound, hjoin⟩ := Option.bind_eq_some_iff.mp hu
    exact h.join found (climbEach h hup ts found (h.union ts ht) hfound) u hjoin
  | .bottom, u, _, hu => by
    rw [Model.climb] at hu
    exact h.join [] (by simp) u hu
  | .error, _, _, hu => by
    rw [Model.climb] at hu
    contradiction

theorem climbAny (h : m.Climbs target P Q) (hup : ∀ t u, P t → up t = some u → Q u) :
    ∀ ts u, (∀ t ∈ ts, P t) → m.climbAny up target ts = some u → Q u
  | [], _, _, hu => by
    rw [Model.climbAny] at hu
    contradiction
  | t :: ts, u, hts, hu => by
    rw [Model.climbAny] at hu
    split at hu
    · rename_i hfound
      cases hu
      exact climb h hup t u (hts t List.mem_cons_self) hfound
    · exact climbAny h hup ts u (fun s hs => hts s (List.mem_cons_of_mem _ hs)) hu

theorem climbEach (h : m.Climbs target P Q) (hup : ∀ t u, P t → up t = some u → Q u) :
    ∀ ts found, (∀ t ∈ ts, P t) → m.climbEach up target ts = some found → ∀ u ∈ found, Q u
  | [], found, _, hfound => by
    rw [Model.climbEach] at hfound
    cases hfound
    simp
  | t :: ts, found, hts, hfound => by
    have hrest : ∀ s ∈ ts, P s := fun s hs => hts s (List.mem_cons_of_mem _ hs)
    rw [Model.climbEach] at hfound
    split at hfound
    · exact climbEach h hup ts found hrest hfound
    · split at hfound
      · contradiction
      · rename_i u hu
        split at hfound
        · contradiction
        · rename_i rest hrest'
          cases hfound
          rintro v (_ | ⟨_, hv⟩)
          · exact climb h hup t _ (hts t List.mem_cons_self) hu
          · exact climbEach h hup ts rest hrest hrest' v hv

end

theorem supertype? (h : m.Climbs target P Q) {t u : Ty} (ht : P t)
    (hu : m.supertype? t target = some u) : Q u := by
  have hwithin : ∀ fuel t u, P t → m.supertypeWithin target fuel t = some u → Q u := by
    intro fuel
    induction fuel with
    | zero =>
      intro t u ht hu
      rw [supertypeWithin_zero] at hu
      exact climb h (fun _ _ _ hnone => by contradiction) t u ht hu
    | succ fuel ih =>
      intro t u ht hu
      rw [supertypeWithin_succ] at hu
      exact climb h ih t u ht hu
  exact hwithin _ t u ht hu

end Climbs

/-- What is found is an instantiation of the target. -/
theorem climbs_isOf (m : Model) (target : DeclId) :
    m.Climbs target (fun _ => True) (fun u => u.isOf target = true) := by
  refine ⟨fun _ _ _ _ => by simp [Ty.isOf, Ty.decl?], fun _ _ _ _ _ _ _ => trivial,
    fun _ _ _ _ => trivial, fun _ _ _ _ => trivial, fun _ _ _ _ => trivial, ?_⟩
  intro found hfound t ht
  unfold joinInstances at ht
  split at ht
  · cases ht
    simp [bottomInstance, Ty.of, Ty.isOf, Ty.decl?]
  · cases ht
    exact hfound _ List.mem_cons_self
  · split at ht
    · obtain ⟨joined, _, rfl⟩ := Option.map_eq_some_iff.mp ht
      simp [Ty.isOf, Ty.decl?]
    · contradiction

/-- Iterable types vary with their element, so several are joined by the union
of their elements. -/
theorem joinInstances_iterable {first second : Ty} {rest : List Ty} {u : Ty}
    (h : m.joinInstances Language.iterable (first :: second :: rest) = some u) :
    u = .nominal Language.iterable
      [.join (((first :: second :: rest).map Ty.args).filterMap List.head?)] first.outer? none := by
  have hparams : (m.decl Language.iterable).typeParams = [Language.iterableElement] := rfl
  have hvariance : (m.param Language.iterableElement).variance = .covariant := rfl
  cases first with
  | nominal d as o hint =>
    rw [joinInstances, hparams] at h
    · simp only [joinArguments, joinArgument, hvariance, Option.map_some, Option.some.injEq] at h
      exact h.symm
    · simp
  | union _ | inter _ | param _ | bottom | error => contradiction

theorem supertype?_of_iterableShape? {t shape : Ty} (h : m.iterableShape? t = some shape) :
    m.supertype? t.definite Language.iterable = some shape := by
  unfold iterableShape? nonemptyIterable? at h
  exact (Option.filter_eq_some_iff.mp h).1

theorem iterableShape?_isOf {t shape : Ty} (h : m.iterableShape? t = some shape) :
    shape.isOf Language.iterable = true :=
  (m.climbs_isOf _).supertype? trivial (supertype?_of_iterableShape? h)

/-! ## Properties that the declarations keep -/

variable {Q : Ty → Prop}

/-- Declared supertypes and bounds bring in only parts that satisfy `Q`, and `Q`
holds of an iterable type as soon as it holds of any class or interface inside
the same type. -/
structure Carries (m : Model) (Q : Ty → Prop) : Prop extends Ty.Partwise Q where
  iterable : ∀ d as o h, Q (.nominal d as o h) → ∀ as',
    Q (.nominal Language.iterable as' o none)
  supertype : ∀ d as o h, (Ty.nominal d as o h).Every Q → ∀ s ∈ (m.decl d).supertypes,
    (s.subst (m.substitution (.nominal d as o h))).Every Q
  bound : ∀ p, Q (.param p) → ∀ b ∈ (m.param p).bounds, b.Every Q

namespace Carries

theorem climbs_iterable (h : m.Carries Q) :
    m.Climbs Language.iterable (Ty.Every Q) (Ty.Every Q) := by
  refine ⟨fun _ _ _ => id, h.supertype, fun p hp => h.bound p hp.self,
    fun _ hts => (Ty.every_union.mp hts).2, fun _ hts => (Ty.every_inter.mp hts).2, ?_⟩
  intro found hfound t ht
  rcases found with _ | ⟨first, _ | ⟨second, rest⟩⟩
  · cases ht
    refine Ty.every_nominal.mpr ⟨h.iterable _ [] none none h.object _, ?_, by simp⟩
    rintro a (_ | ⟨_, ⟨⟩⟩)
    exact h.every_bottom
  · cases ht
    exact hfound _ List.mem_cons_self
  · rw [joinInstances_iterable ht]
    cases first with
    | nominal d as o hint =>
      obtain ⟨hself, _, houter⟩ := Ty.every_nominal.mp (hfound _ List.mem_cons_self)
      refine Ty.every_nominal.mpr ⟨h.iterable d as o hint hself _, ?_, houter⟩
      rintro a (_ | ⟨_, ⟨⟩⟩)
      refine h.join fun e he => ?_
      obtain ⟨as, has, hhead⟩ := List.mem_filterMap.mp he
      obtain ⟨f, hf, rfl⟩ := List.mem_map.mp has
      exact (hfound f hf).arg (List.mem_of_head? hhead)
    | union _ | inter _ | param _ | bottom | error => contradiction

theorem iterableShape? (h : m.Carries Q) {t shape : Ty} (ht : t.Every Q)
    (hshape : m.iterableShape? t = some shape) : shape.Every Q :=
  h.climbs_iterable.supertype? (h.definite ht) (supertype?_of_iterableShape? hshape)

theorem joinArgument (h : m.Carries Q) (herror : Q .error) {p : ParamId} {column : List Ty}
    {t : Ty} (hcolumn : ∀ a ∈ column, a.Every Q) (ht : m.joinArgument p column = some t) :
    t.Every Q := by
  unfold Model.joinArgument at ht
  split at ht
  · cases ht
    exact h.join hcolumn
  · cases ht
    exact h.meet herror hcolumn
  · split at ht
    · contradiction
    · split at ht
      · cases ht
        exact hcolumn _ List.mem_cons_self
      · contradiction

theorem joinArguments (h : m.Carries Q) (herror : Q .error) {ps : List ParamId}
    {rows : List (List Ty)} {ts : List Ty} (hrows : ∀ row ∈ rows, ∀ a ∈ row, a.Every Q)
    (hts : m.joinArguments ps rows = some ts) : ∀ t ∈ ts, t.Every Q := by
  induction ps generalizing rows ts with
  | nil =>
    cases hts
    simp
  | cons p ps ih =>
    rw [Model.joinArguments] at hts
    split at hts
    · contradiction
    · rename_i t ht
      split at hts
      · contradiction
      · rename_i rest hrest
        cases hts
        rintro u (_ | ⟨_, hu⟩)
        · refine h.joinArgument herror (fun a ha => ?_) ht
          obtain ⟨row, hrow, hhead⟩ := List.mem_filterMap.mp ha
          exact hrows row hrow a (List.mem_of_head? hhead)
        · refine ih (fun row hrow a ha => ?_) hrest u hu
          obtain ⟨whole, hwhole, rfl⟩ := List.mem_map.mp hrow
          exact hrows whole hwhole a (List.mem_of_mem_tail ha)

/-- The arguments of whatever instantiation a climb finds. -/
theorem climbs_arguments (h : m.Carries Q) (herror : Q .error) (target : DeclId) :
    m.Climbs target (Ty.Every Q) (fun u => ∀ s ∈ u.segments, ∀ a ∈ s.args, a.Every Q) := by
  refine ⟨fun as o hint ht s hs a ha => (ht.segment hs).arg ha, h.supertype,
    fun p hp => h.bound p hp.self, fun _ hts => (Ty.every_union.mp hts).2,
    fun _ hts => (Ty.every_inter.mp hts).2, ?_⟩
  intro found hfound t ht
  rcases found with _ | ⟨first, _ | ⟨second, rest⟩⟩
  · cases ht
    simp only [bottomInstance, Ty.of, Ty.segments, Ty.segmentsAround, List.mem_singleton,
      forall_eq, Ty.args, List.mem_replicate, and_imp]
    rintro a - rfl
    exact h.every_bottom
  · cases ht
    exact hfound _ List.mem_cons_self
  · cases first with
    | nominal d as o hint =>
      obtain ⟨joined, hjoined, rfl⟩ := Option.map_eq_some_iff.mp ht
      rw [Ty.segments, List.forall_mem_cons]
      constructor
      · refine h.joinArguments herror (fun row hrow a ha => ?_) hjoined
        obtain ⟨f, hf, rfl⟩ := List.mem_map.mp hrow
        exact hfound f hf f (by cases f <;> simp [Ty.segments]) a ha
      · intro s hs
        refine hfound _ List.mem_cons_self s ?_
        rw [Ty.segments]
        exact List.mem_cons_of_mem _ hs
    | union _ | inter _ | param _ | bottom | error => contradiction

end Carries

end Model

/-! ## What the lowering comes to -/

namespace TypeLowering

variable {m : Model} {ctx : Context} {Q : Ty → Prop}

theorem every_of_view (hm : m.Carries Q) {a u : Ty} (ha : a.Every Q)
    (hview : ArgumentView.of m ctx a = .as u) : u.Every Q := by
  have hboolean : ∀ v : Ty, v.Every Q → (ArgumentView.widenBoolean m v).Every Q := by
    intro v hv
    unfold ArgumentView.widenBoolean
    split
    · exact hm.every_boolean
    · exact hv
  unfold ArgumentView.of at hview
  extract_lets only present at hview
  have hpresent : present.Every Q := by
    unfold present
    split
    · exact hm.nonNull ha.collapse
    · exact ha.collapse
  split at hview
  · split at hview
    · rename_i shape hshape
      cases hview
      exact hboolean _ (hm.iterableShape? hpresent hshape)
    · split at hview
      · contradiction
      · cases hview
        exact hboolean _ hpresent
  · cases hview
    exact hboolean _ hpresent

theorem every_of_shown (hm : m.Carries Q) {t shown : Ty} (ht : t.Every Q) (h : Shown m t shown) :
    shown.Every Q := by
  rcases h with ⟨rfl, _⟩ | ⟨_, _, rfl⟩
  · exact ht
  · cases hshape : m.iterableShape? t with
    | none => exact ht
    | some shape => exact hm.iterableShape? ht hshape

theorem every_resolveBound (hm : m.Carries Q) {t : Ty} (ht : t.Every Q) :
    (resolveBound m ctx t).Every Q := by
  unfold resolveBound
  split
  · split
    · rename_i p
      cases hbound : m.firstBound? p with
      | none => exact hm.every_object
      | some bound => exact hm.bound p ht.self bound (List.mem_of_head? hbound)
    · exact ht
  · exact ht

theorem inSupertypeClause_adjust (c : Config) (ctx : Context) :
    (adjust c ctx).inSupertypeClause = ctx.inSupertypeClause := by
  unfold adjust
  split
  · simp [Context.inSupertypeClause, Context.smallNumbers, Union.union, Context.union]
  · rfl

end TypeLowering

namespace Env

open TypeLowering

variable {env : Env} {ctx : Context} {t u v : Ty} {Q : Ty → Prop}

/-- What a type asks for keeps to what its parts satisfy.  A bound can stand for
an argument in a supertype clause only. -/
theorem AsksFor.every (hm : env.model.Carries Q) (ht : t.Every Q) (h : env.AsksFor ctx t u)
    (hbound : ctx.inSupertypeClause = true → ∀ p, ∀ b ∈ (env.model.param p).bounds, b.Every Q) :
    u.Every Q := by
  obtain ⟨asked, hasks, hviews⟩ := step_asks env.model (adjust env.config ctx) t
  obtain ⟨shown, hshown, s, hs, a, ha, p, hview⟩ := hviews u ((hasks.mem_iff u).mp h)
  have hsimple := hm.simplify (every_of_shown hm (every_resolveBound hm ht.collapse) hshown)
  rcases hview with hview | ⟨hclause, hmem⟩
  · exact every_of_view hm ((hsimple.segment hs).arg ha) hview
  · exact hbound (inSupertypeClause_adjust env.config ctx ▸ hclause) p u hmem

/-- All types that the lowering comes to keep to what the parts satisfy. -/
theorem Reaches.every (hm : env.model.Carries Q) (ht : t.Every Q) (h : env.Reaches ctx t v)
    (hbound : ctx.inSupertypeClause = true → ∀ p, ∀ b ∈ (env.model.param p).bounds, b.Every Q) :
    v.Every Q := by
  induction h with
  | self ctx t => exact every_resolveBound hm ht.collapse
  | argument hasks _ ih => exact ih (hasks.every hm ht hbound) (by simp [Context.typeArgument,
      Context.inSupertypeClause])

end Env

end TreeLowering
