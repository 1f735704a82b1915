import TreeLowering.Proofs.RefinementSafety
import TreeLowering.Proofs.TypePart
set_option autoImplicit false

/-!
# Proofs: the scope of type parameters

A type parameter is in scope in its declaration and in all that is declared
inside.  Types that mention parameters of a set lead, by way of supertypes and
bounds, to types that mention further ones: those of bounds, and those that an
incomplete type gives no argument for.  This is all that a supertype, and with
it the type of a refined member, brings in beyond the member's own parameters.
-/

namespace TreeLowering

namespace Model

variable {m : Model}

/-! ## Scope -/

/-- The parameter belongs to the declaration or to one around it. -/
inductive InScope (m : Model) : DeclId → ParamId → Prop
  | own {d : DeclId} {p : ParamId} (h : p ∈ (m.decl d).typeParams) : InScope m d p
  | around {d c : DeclId} {p : ParamId} (hc : (m.decl d).container = some c)
      (h : InScope m c p) : InScope m d p

theorem InScope.exists_own {d : DeclId} {p : ParamId} (h : m.InScope d p) :
    ∃ e, p ∈ (m.decl e).typeParams := by
  induction h with
  | own h => exact ⟨_, h⟩
  | around _ _ ih => exact ih

theorem InScope.of_mem_containers {d e : DeclId} {p : ParamId} (h : m.InScope e p)
    (he : e ∈ m.containers d) : m.InScope d p := by
  unfold containers at he
  generalize m.declCount = fuel at he
  induction fuel generalizing d with
  | zero => contradiction
  | succ fuel ih =>
    rw [containersWithin] at he
    split at he
    · contradiction
    · rename_i c hc
      rcases List.mem_cons.mp he with rfl | he
      · exact .around hc h
      · exact .around hc (ih he)

theorem InScope.of_enclosingType? {d c : DeclId} {p : ParamId} (h : m.InScope c p)
    (hc : m.enclosingType? d = some c) : m.InScope d p :=
  .around (Option.filter_eq_some_iff.mp hc).1 h

/-- The types that a declaration is declared with: supertypes, its own type, the
types of its parameters, and the bounds of its type parameters. -/
def declaredTypes (m : Model) (d : DeclId) : List Ty :=
  (m.decl d).supertypes ++ (m.decl d).ty.toList ++
    (m.decl d).paramLists.flatten.map (·.ty) ++
      (m.decl d).typeParams.flatMap fun p => (m.param p).bounds

section

variable {d : DeclId} {t : Ty}

theorem mem_declaredTypes_of_supertype (h : t ∈ (m.decl d).supertypes) :
    t ∈ m.declaredTypes d := by
  simp [declaredTypes, h]

theorem mem_declaredTypes_of_ty (h : (m.decl d).ty = some t) : t ∈ m.declaredTypes d := by
  simp [declaredTypes, h]

theorem mem_declaredTypes_of_parameter {list : List Parameter} {x : Parameter}
    (hlist : list ∈ (m.decl d).paramLists) (hx : x ∈ list) : x.ty ∈ m.declaredTypes d := by
  have hmem : x.ty ∈ (m.decl d).paramLists.flatten.map (·.ty) :=
    List.mem_map_of_mem (List.mem_flatten_of_mem hlist hx)
  simp only [declaredTypes, List.mem_append]
  exact .inl (.inr hmem)

theorem mem_declaredTypes_of_bound {p : ParamId} (hp : p ∈ (m.decl d).typeParams)
    (h : t ∈ (m.param p).bounds) : t ∈ m.declaredTypes d :=
  List.mem_append_right _ (List.mem_flatMap_of_mem hp h)

end

theorem declaredTypes_eq_nil {d : DeclId} (h : m.declCount ≤ d.index) :
    m.declaredTypes d = [] := by
  rw [declaredTypes, decl_eq_default h]
  rfl

/-- Each declared type mentions only type parameters in scope. -/
def Scoped (m : Model) : Prop := ∀ d, ∀ t ∈ m.declaredTypes d, ∀ p, t.Mentions p → m.InScope d p

/-- Bounds stay in scope. -/
theorem InScope.bound (hm : m.Scoped) {d : DeclId} {p q : ParamId} {b : Ty} (h : m.InScope d p)
    (hb : b ∈ (m.param p).bounds) (hq : b.Mentions q) : m.InScope d q := by
  induction h with
  | own h => exact hm _ _ (mem_declaredTypes_of_bound h hb) _ hq
  | around hc _ ih => exact .around hc (ih hb)

/-- A finite check of the scopes. -/
theorem scoped_of_containers
    (h : ∀ i ∈ List.range m.declCount, ∀ t ∈ m.declaredTypes ⟨i⟩, ∀ c ∈ t.parts,
      c.isParam = true →
        c ∈ (⟨i⟩ :: m.containers ⟨i⟩).flatMap fun e => (m.decl e).typeParams.map .param) :
    m.Scoped := by
  intro d t ht p hp
  by_cases hlt : d.index < m.declCount
  · obtain ⟨e, he, hmem⟩ := List.mem_flatMap.mp
      (h d.index (List.mem_range.mpr hlt) t ht _ hp rfl)
    have hown : m.InScope e p := .own (by simpa using hmem)
    rcases List.mem_cons.mp he with rfl | he
    · exact hown
    · exact hown.of_mem_containers he
  · rw [declaredTypes_eq_nil (Nat.le_of_not_lt hlt)] at ht
    contradiction

/-! ## What incomplete types leave open -/

/-- A supertype of the class or interface mentions the parameter, and the type
gives no argument for it. -/
def LeavesOpen (m : Model) (c : Ty) (p : ParamId) : Prop :=
  (m.substitution c).get? p = none ∧ ∃ d ∈ c.decl?, ∃ s ∈ (m.decl d).supertypes, s.Mentions p

/-- Some declared type leaves the parameter open. -/
def LeftOpen (m : Model) (p : ParamId) : Prop :=
  ∃ d, ∃ t ∈ m.declaredTypes d, ∃ c ∈ t.parts, m.LeavesOpen c p

/-- The type has an argument for every type parameter that a supertype of its
declaration mentions. -/
def Complete (m : Model) (c : Ty) : Prop :=
  ∀ d ∈ c.decl?, ∀ s ∈ (m.decl d).supertypes, ∀ q ∈ s.parts, q.isParam = true →
    q ∈ (c.segments.flatMap m.boundParams).map .param

instance (m : Model) (c : Ty) : Decidable (m.Complete c) :=
  inferInstanceAs (Decidable (∀ d ∈ c.decl?, ∀ s ∈ (m.decl d).supertypes, ∀ q ∈ s.parts, _))

theorem Complete.not_leavesOpen {c : Ty} (h : m.Complete c) (p : ParamId) :
    ¬ m.LeavesOpen c p := by
  rintro ⟨hnone, d, hd, s, hs, hp⟩
  obtain ⟨segment, hsegment, hmem⟩ : ∃ segment ∈ c.segments, p ∈ m.boundParams segment := by
    simpa using h d hd s hs _ hp rfl
  exact substitution_eq_none.mp hnone segment hsegment hmem

/-- Complete types leave nothing open. -/
theorem not_leftOpen_of_complete
    (h : ∀ i ∈ List.range m.declCount, ∀ t ∈ m.declaredTypes ⟨i⟩, ∀ c ∈ t.parts, m.Complete c)
    (p : ParamId) : ¬ m.LeftOpen p := by
  rintro ⟨d, t, ht, c, hc, hopen⟩
  by_cases hlt : d.index < m.declCount
  · exact (h d.index (List.mem_range.mpr hlt) t ht c hc).not_leavesOpen p hopen
  · rw [declaredTypes_eq_nil (Nat.le_of_not_lt hlt)] at ht
    contradiction

/-- The parameter is in `S`, is left open, or is mentioned by a bound of a
parameter that is led to. -/
inductive LeadsTo (m : Model) (S : ParamId → Prop) : ParamId → Prop
  | given {p : ParamId} (h : S p) : LeadsTo m S p
  | leftOpen {p : ParamId} (h : m.LeftOpen p) : LeadsTo m S p
  | bound {p q : ParamId} {b : Ty} (h : LeadsTo m S p) (hb : b ∈ (m.param p).bounds)
      (hq : b.Mentions q) : LeadsTo m S q

namespace LeadsTo

variable {S : ParamId → Prop} {p : ParamId}

theorem exists_own (hm : m.Scoped) (hS : ∀ p, S p → ∃ e, p ∈ (m.decl e).typeParams)
    (h : m.LeadsTo S p) : ∃ e, p ∈ (m.decl e).typeParams := by
  induction h with
  | given h => exact hS _ h
  | leftOpen h =>
    obtain ⟨_, _, _, _, _, _, e, _, s, hs, hp⟩ := h
    exact (hm e s (mem_declaredTypes_of_supertype hs) _ hp).exists_own
  | bound _ hb hq ih =>
    obtain ⟨e, he⟩ := ih
    exact (hm e _ (mem_declaredTypes_of_bound he hb) _ hq).exists_own

/-- Nothing but what is in scope is led to, if nothing else is given or left
open. -/
theorem inScope (hm : m.Scoped) {d : DeclId} (hopen : ∀ p, m.LeftOpen p → m.InScope d p)
    (hS : ∀ p, S p → m.InScope d p) (h : m.LeadsTo S p) : m.InScope d p := by
  induction h with
  | given h => exact hS _ h
  | leftOpen h => exact hopen _ h
  | bound _ hb hq ih => exact ih.bound hm hb hq

end LeadsTo

/-- The parameter is in scope of the declaration, or `S` leads to it. -/
def Admits (m : Model) (d : DeclId) (S : ParamId → Prop) (p : ParamId) : Prop :=
  m.InScope d p ∨ m.LeadsTo S p

theorem Admits.bound (hm : m.Scoped) {d : DeclId} {S : ParamId → Prop} {p q : ParamId} {b : Ty}
    (h : m.Admits d S p) (hb : b ∈ (m.param p).bounds) (hq : b.Mentions q) : m.Admits d S q :=
  h.imp (fun hscope => hscope.bound hm hb hq) fun hled => hled.bound hb hq

/-! ## Types within a set of parameters -/

/-- The type, if it is a type parameter, is in `V`, and it leaves only parameters
in `V` open. -/
structure Within (m : Model) (V : ParamId → Prop) (c : Ty) : Prop where
  param : ∀ p, c = .param p → V p
  leftOpen : ∀ p, m.LeavesOpen c p → V p

namespace Within

variable {V : ParamId → Prop}

/-- Supertypes without type parameters leave none open. -/
theorem of_supertypes {c : Ty} (hparam : c.isParam = false)
    (h : ∀ d ∈ c.decl?, ∀ s ∈ (m.decl d).supertypes, ∀ p, ¬ s.Mentions p) : m.Within V c := by
  refine ⟨?_, fun p hp => ?_⟩
  · rintro p rfl
    contradiction
  · obtain ⟨_, d, hd, s, hs, hmentions⟩ := hp
    exact absurd hmentions (h d hd s hs p)

theorem of_decl?_eq_none {c : Ty} (hparam : c.isParam = false) (hc : c.decl? = none) :
    m.Within V c :=
  .of_supertypes hparam (by simp [hc])

theorem ofParam {p : ParamId} (hp : V p) : (Ty.param p).Every (m.Within V) := by
  refine (Ty.every_leaf rfl).mpr ⟨?_, ?_⟩
  · rintro q ⟨⟩
    exact hp
  · rintro q ⟨_, d, hd, _⟩
    contradiction

theorem partwise (m : Model) (V : ParamId → Prop) : Ty.Partwise (m.Within V) where
  union _ := .of_decl?_eq_none rfl rfl
  inter _ := .of_decl?_eq_none rfl rfl
  bottom := .of_decl?_eq_none rfl rfl
  object := by
    refine .of_supertypes rfl ?_
    rintro d ⟨⟩ s hs p hp
    obtain rfl : s = Language.voidTy := List.mem_singleton.mp hs
    cases List.mem_singleton.mp hp
  boolean := by
    refine .of_supertypes rfl ?_
    rintro d ⟨⟩ s hs p hp
    obtain rfl : s = Language.identifiableObjectTy := List.mem_singleton.mp hs
    cases List.mem_singleton.mp hp
  hint d as o h hc := ⟨by simp, fun p hp => hc.leftOpen p hp⟩

theorem instantiation {d : DeclId} (hd : (m.decl d).supertypes = []) (as : List Ty) (o : Option Ty)
    (h : Option Hint) : m.Within V (.nominal d as o h) := by
  refine .of_supertypes rfl ?_
  rintro e ⟨⟩
  simp [hd]

end Within

/-! ## Replacing type parameters -/

theorem mem_boundParams_replace (f : ParamId → Ty) {s : Ty} {p : ParamId}
    (hp : p ∈ m.boundParams s) : p ∈ m.boundParams (s.replace f) := by
  cases s with
  | nominal d as o h =>
    obtain ⟨e, he, rfl⟩ := List.mem_map.mp hp
    obtain ⟨hzip, hsingle⟩ := List.mem_filter.mp he
    rw [Ty.replace, Ty.replaceAll_eq_map]
    refine List.mem_map.mpr ⟨(e.1, e.2.replace f), List.mem_filter.mpr ⟨?_, hsingle⟩, rfl⟩
    rw [List.zip_map_right]
    exact List.mem_map.mpr ⟨e, hzip, rfl⟩
  | union _ | inter _ | param _ | bottom | error => contradiction

/-- The segments of a type are still there, with their own parameters replaced. -/
theorem replace_mem_segments (f : ParamId → Ty) : ∀ {t s : Ty}, s ∈ t.segments →
    s.decl?.isSome = true → s.replace f ∈ (t.replace f).segments
  | .nominal d as none h, s, hs, _ => by
    obtain rfl : s = .nominal d as none h := by
      simpa [Ty.segments, Ty.segmentsAround] using hs
    simp [Ty.replace, Ty.segments]
  | .nominal d as (some q) h, s, hs, hdecl => by
    rw [Ty.segments, Ty.segmentsAround] at hs
    rw [Ty.replace, Ty.replaceOuter, Ty.segments, Ty.segmentsAround]
    rcases List.mem_cons.mp hs with rfl | hs
    · simp [Ty.replace, Ty.replaceOuter]
    · exact List.mem_cons_of_mem _ (replace_mem_segments f hs hdecl)
  | .union _, _, hs, hdecl | .inter _, _, hs, hdecl | .param _, _, hs, hdecl
  | .bottom, _, hs, hdecl | .error, _, hs, hdecl => by
    rw [Ty.segments, List.mem_singleton] at hs
    · rw [hs] at hdecl
      contradiction
    all_goals simp

/-- Replacing parameters leaves no further ones open. -/
theorem LeavesOpen.of_replace {f : ParamId → Ty} {c : Ty} {p : ParamId}
    (h : m.LeavesOpen (c.replace f) p) (hparam : c.isParam = false) : m.LeavesOpen c p := by
  obtain ⟨hnone, d, hd, hmentions⟩ := h
  refine ⟨substitution_eq_none.mpr fun s hs hp => ?_, d, ?_, hmentions⟩
  · have hdecl : s.decl?.isSome = true := by
      cases s with
      | nominal _ _ _ _ => rfl
      | union _ | inter _ | param _ | bottom | error => contradiction
    exact substitution_eq_none.mp hnone _ (replace_mem_segments f hs hdecl)
      (mem_boundParams_replace f hp)
  · cases c with
    | nominal d' as o hint => simpa [Ty.replace, Ty.decl?] using hd
    | param _ => contradiction
    | union _ | inter _ | bottom | error => simp [Ty.replace, Ty.decl?] at hd

/-! ## What declared types lead to -/

section

variable {d : DeclId} {S V : ParamId → Prop}

/-- A declared type, seen through arguments within `V`. -/
theorem every_subst_of_declared (hopen : ∀ p, m.LeftOpen p → V p) {t : Ty}
    (ht : t ∈ m.declaredTypes d) {f : ParamId → Ty}
    (hf : ∀ p, t.Mentions p → (f p).Every (m.Within V)) : (t.replace f).Every (m.Within V) := by
  -- Every part is inside an argument or a declared part with arguments put in.
  refine Ty.every_replace hf fun b hb hparam => ⟨?_, fun p hp => ?_⟩
  · intro p hp
    cases b <;> simp [Ty.replace, Ty.isParam] at hp hparam
  · exact hopen p ⟨d, t, ht, b, hb, hp.of_replace hparam⟩

theorem every_of_declared (hopen : ∀ p, m.LeftOpen p → V p) {t : Ty}
    (ht : t ∈ m.declaredTypes d) (hmentions : ∀ p, t.Mentions p → V p) :
    t.Every (m.Within V) := by
  rw [← Ty.replace_param t]
  exact every_subst_of_declared hopen ht fun p hp => .ofParam (hmentions p hp)

/-- Declarations keep types within what is in scope or led to. -/
theorem carries_admits (hm : m.Scoped) (hS : ∀ p, S p → ∃ e, p ∈ (m.decl e).typeParams) :
    m.Carries (m.Within (m.Admits d S)) where
  toPartwise := Within.partwise m _
  iterable _ _ _ _ _ as' := .instantiation rfl as' _ none
  supertype d as o h ht s hs := by
    refine every_subst_of_declared (fun _ hp => .inr (.leftOpen hp))
      (mem_declaredTypes_of_supertype hs) fun p hp => ?_
    -- Without an argument the parameter is left as it is, and was left open already.
    cases hget : (m.substitution (.nominal d as o h)).get? p with
    | none => exact .ofParam (ht.self.leftOpen p ⟨hget, d, rfl, s, hs, hp⟩)
    | some u =>
      obtain ⟨segment, hsegment, hu⟩ := mem_args_of_substitution hget
      exact (ht.segment hsegment).arg hu
  bound p hp b hb := by
    have hadmits := hp.param p rfl
    obtain ⟨e, he⟩ : ∃ e, p ∈ (m.decl e).typeParams :=
      hadmits.elim InScope.exists_own (LeadsTo.exists_own hm hS)
    exact every_of_declared (fun _ hq => .inr (.leftOpen hq)) (mem_declaredTypes_of_bound he hb)
      fun q hq => hadmits.bound hm hb hq

/-- The type of a declaration seen from inside it mentions only what is in
scope. -/
theorem every_declaredType (hm : m.Scoped) {c : DeclId} (hV : ∀ p, m.InScope c p → V p) :
    (m.declaredType c).Every (m.Within V) := by
  have happlied : ∀ e o, (∀ p, m.InScope e p → V p) → (∀ q ∈ o, q.Every (m.Within V)) →
      (m.selfApplied e o).Every (m.Within V) := by
    intro e o he ho
    refine Ty.every_nominal.mpr ⟨⟨by simp, ?_⟩, fun a ha => ?_, ho⟩
    · rintro p ⟨_, _, ⟨⟩, s, hs, hp⟩
      exact he p (hm e s (mem_declaredTypes_of_supertype hs) p hp)
    · obtain ⟨p, hp, rfl⟩ := List.mem_map.mp ha
      exact .ofParam (he p (.own hp))
  have hnested : ∀ ds : List DeclId, (∀ e ∈ ds, ∀ p, m.InScope e p → V p) →
      ∀ q ∈ m.nestedType ds, q.Every (m.Within V) := by
    intro ds
    induction ds with
    | nil => simp [nestedType]
    | cons e around ih =>
      rintro hds q ⟨⟩
      exact happlied e _ (hds e List.mem_cons_self)
        (ih fun e' he' => hds e' (List.mem_cons_of_mem _ he'))
  refine happlied c _ hV (hnested _ fun e he p hp => hV p (hp.of_mem_containers ?_))
  exact (List.takeWhile_sublist _).subset he

end

end Model

/-! ## Members seen through a type -/

/-- The arguments that the member is seen through satisfy `Q` in every part. -/
def MemberRef.SeenWithin (Q : Ty → Prop) (r : MemberRef) : Prop :=
  ∀ o ∈ r.outer, ∀ s ∈ o.segments, ∀ a ∈ s.args, a.Every Q

namespace Model

variable {m : Model}

theorem Carries.memberRef {Q : Ty → Prop} (h : m.Carries Q) (herror : Q .error) {t : Ty}
    (ht : t.Every Q) (x : DeclId) : (m.memberRef t x).SeenWithin Q := by
  intro o ho
  obtain ⟨c, _, hc⟩ := Option.bind_eq_some_iff.mp ho
  exact (h.climbs_arguments herror c).supertype? ht hc

section

variable {declaring refined : DeclId} {outer : Ty} {r chosen : MemberRef}

theorem memberRef_of_directInstance? (h : m.directInstance? declaring refined = some r) :
    ∃ s ∈ (m.decl declaring).supertypes, r = m.memberRef s refined := by
  unfold directInstance? at h
  split at h
  · contradiction
  · split at h
    · obtain ⟨s, hs, rfl⟩ := List.mem_map.mp (List.mem_of_find?_eq_some h)
      exact ⟨s, hs, rfl⟩
    · contradiction

theorem memberRef_of_pickCandidate? {candidates : List DeclId}
    (h : m.pickCandidate? outer declaring refined candidates = some r) :
    (∃ x, r = m.memberRef outer x) ∨ ∃ s ∈ (m.decl declaring).supertypes,
      r = m.memberRef s refined := by
  have hcandidate : ∀ {p : MemberRef → Bool} {found : MemberRef},
      (candidates.map (m.memberRef outer)).find? p = some found →
        ∃ x, found = m.memberRef outer x := fun hfound => by
    obtain ⟨x, _, rfl⟩ := List.mem_map.mp (List.mem_of_find?_eq_some hfound)
    exact ⟨x, rfl⟩
  unfold pickCandidate? at h
  dsimp only at h
  split at h
  · rename_i hfound
    cases h
    exact .inl (hcandidate hfound)
  · split at h
    · rename_i hfound
      cases h
      exact .inl (hcandidate hfound)
    · exact .inr (memberRef_of_directInstance? h)

theorem memberRef_of_erasedCandidate? (h : m.erasedCandidate? r outer refined = some chosen) :
    (∃ x, chosen = m.memberRef outer x) ∨ ∃ c ∈ m.enclosingType? r.decl,
      ∃ s ∈ (m.decl c).supertypes, chosen = m.memberRef s refined := by
  unfold erasedCandidate? at h
  split at h
  · contradiction
  · rename_i declaring hdeclaring
    dsimp only at h
    split at h
    · split at h
      · exact (memberRef_of_pickCandidate? h).imp_right fun hs => ⟨declaring, hdeclaring, hs⟩
      · contradiction
    · contradiction

/-- What a signature is checked against is seen through the type around the
member, or through a direct supertype of its class. -/
theorem memberRef_of_refinedRef? (h : m.refinedRef? r = some chosen) :
    ∃ t x, chosen = m.memberRef t x ∧
      (r.outer = some t ∨ ∃ c ∈ m.enclosingType? r.decl, t ∈ (m.decl c).supertypes) := by
  unfold refinedRef? at h
  split at h
  · contradiction
  · split at h
    · contradiction
    · split at h
      · contradiction
      · rename_i outer houter
        split at h
        · rename_i hfound
          cases h
          obtain ⟨x, rfl⟩ | ⟨c, hc, s, hs, rfl⟩ := memberRef_of_erasedCandidate? hfound
          · exact ⟨outer, x, rfl, .inl houter⟩
          · exact ⟨s, _, rfl, .inr ⟨c, hc, hs⟩⟩
        · cases h
          exact ⟨outer, _, rfl, .inl houter⟩

end

/-- The type of the member mentions the parameter, and the type that the member
is seen through gives no argument for it. -/
def Uninstantiated (m : Model) (r : MemberRef) (p : ParamId) : Prop :=
  (∃ t ∈ (m.decl r.decl).ty, t.Mentions p) ∧ ∀ o ∈ r.outer, (m.substitution o).get? p = none

variable {S V : ParamId → Prop}

theorem every_refType (hopen : ∀ p, m.LeftOpen p → V p) {r : MemberRef}
    (hr : r.SeenWithin (m.Within V)) (hV : ∀ p, m.Uninstantiated r p → V p) :
    (m.refType r).Every (m.Within V) := by
  unfold refType
  split
  · exact (Ty.every_leaf rfl).mpr (.of_decl?_eq_none rfl rfl)
  · rename_i t ht
    have hdeclared := mem_declaredTypes_of_ty ht
    split
    · rename_i hnone
      refine every_of_declared hopen hdeclared fun p hp => hV p ⟨⟨t, ht, hp⟩, ?_⟩
      simp [hnone]
    · rename_i outer houter
      refine every_subst_of_declared hopen hdeclared fun p hp => ?_
      cases hget : (m.substitution outer).get? p with
      | none =>
        refine .ofParam (hV p ⟨⟨t, ht, hp⟩, ?_⟩)
        rintro o ho
        obtain rfl : outer = o := Option.some.inj (houter.symm.trans ho)
        exact hget
      | some u =>
        obtain ⟨s, hs, hu⟩ := mem_args_of_substitution hget
        exact hr outer houter s hs u hu

theorem ownRef_decl (d : DeclId) : (m.ownRef d).decl = d := by
  unfold ownRef
  split <;> rfl

/-- A member is first seen through the type around it, seen from inside. -/
theorem every_ownRef_outer (hm : m.Scoped) {d : DeclId}
    (hV : ∀ c ∈ m.enclosingType? d, ∀ p, m.InScope c p → V p) :
    ∀ o ∈ (m.ownRef d).outer, o.Every (m.Within V) := by
  intro o ho
  cases hc : m.enclosingType? d with
  | none =>
    rw [ownRef, hc] at ho
    contradiction
  | some c =>
    rw [ownRef_eq hc] at ho
    cases ho
    exact every_declaredType hm (hV c hc)

/-- A member's signature is taken from a declaration that is seen through what
is in scope of the member. -/
theorem nonWideningRef_seenWithin (hm : m.Scoped) (d : DeclId)
    (hS : ∀ p, S p → ∃ e, p ∈ (m.decl e).typeParams) :
    (m.nonWideningRef (m.ownRef d)).SeenWithin (m.Within (m.Admits d S)) := by
  have hcarries : m.Carries (m.Within (m.Admits d S)) := carries_admits hm hS
  have herror : m.Within (m.Admits d S) .error := .of_decl?_eq_none rfl rfl
  have haround : ∀ c ∈ m.enclosingType? d, ∀ p, m.InScope c p → m.Admits d S p :=
    fun c hc p hp => .inl (hp.of_enclosingType? hc)
  have houter := every_ownRef_outer hm haround
  have hsupertype : ∀ c ∈ m.enclosingType? d, ∀ s ∈ (m.decl c).supertypes,
      s.Every (m.Within (m.Admits d S)) := fun c hc s hs =>
    have hdeclared := mem_declaredTypes_of_supertype hs
    every_of_declared (fun _ hp => .inr (.leftOpen hp)) hdeclared fun p hp =>
      haround c hc p (hm c s hdeclared p hp)
  have hown : (m.ownRef d).SeenWithin (m.Within (m.Admits d S)) :=
    fun o ho s hs a ha => ((houter o ho).segment hs).arg ha
  unfold nonWideningRef
  split
  · exact hown
  · rename_i refined hrefined
    split
    -- The types that a refined declaration is seen through are found by a climb
    -- from the outer type or from a direct supertype, so they stay within.
    · obtain ⟨t, x, rfl, ht | ⟨c, hc, ht⟩⟩ := memberRef_of_refinedRef? hrefined
      · exact hcarries.memberRef herror (houter t ht) x
      · exact hcarries.memberRef herror (hsupertype c (ownRef_decl d ▸ hc) t ht) x
    · exact hown

end Model

end TreeLowering
