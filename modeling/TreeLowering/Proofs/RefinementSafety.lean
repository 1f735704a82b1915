import TreeLowering.Lowering.Refinement
import TreeLowering.Proofs.Simplification
import Mathlib.Tactic.ByContra
set_option autoImplicit false

/-!
# Refined members: what the emitted signature widens

A signature can widen an inherited one only when it erases to the root object
and is not the object type itself.  The choice between a member and what it
refines is therefore judged by when the chosen type erases: only when the
member's own type does, and no candidate of the search is more precise.

A member must not widen any instantiation of what it refines.  The search misses
some: its last stage, the only one that sees the other instantiations, is passed
over where the inherited type is an optional type parameter, although the stages
before it take such a type for a parameter.  `Imprecise` is exactly when a
signature that widens is let through.
-/

namespace TreeLowering

namespace Ty

/-- A type parameter, optional or not, simplifies to the bare parameter. -/
theorem simplify_of_isTypeParameter {t : Ty} (h : t.isTypeParameter = true) :
    ∃ p, t.simplify = param p := by
  unfold isTypeParameter at h
  cases t with
  | nominal d as o hint =>
    simp only [nonNull] at h
    split at h
    · simp [isParam, Language.objectTy, of] at h
    · split at h <;> simp [isParam] at h
  | union cases =>
    simp only [nonNull] at h
    split at h
    · simp [isParam] at h
    · rename_i only hcases
      obtain ⟨p, rfl⟩ : ∃ p, only = param p := by
        cases only <;> simp_all [isParam]
      refine ⟨p, ?_⟩
      by_cases hopt : anyOptional cases = true
      · simp [simplify, isOptional, hopt, definite, hcases, isOf, decl?, isParam, collapse]
      · have hnone : (union cases).isOptional = false := by simpa [isOptional] using hopt
        have hsole : cases = [param p] := by
          rw [← presentCases_eq_self (hasAbsentCase_of_not_optional hnone), hcases]
        subst hsole
        simp [simplify, isOptional, anyOptional, collapse]
    · simp [isParam] at h
  | inter bounds => simp [nonNull, isParam] at h
  | param p => exact ⟨p, by simp [simplify, isOptional, collapse]⟩
  | bottom => simp [nonNull, isParam] at h
  | error => simp [nonNull, isParam] at h

end Ty

namespace Model

variable {m : Model}

/-! ## What erases -/

theorem not_erases_of_isTypeParameter {t : Ty} (h : t.isTypeParameter = true) :
    m.erasesToObject t = false := by
  obtain ⟨p, hp⟩ := Ty.simplify_of_isTypeParameter h
  simp [erasesToObject, hp]

theorem not_erases_of_isParam {t : Ty} (h : t.isParam = true) : m.erasesToObject t = false := by
  cases t <;> simp_all [Ty.isParam, erasesToObject, Ty.simplify, Ty.isOptional, Ty.collapse]

theorem isWidening_eq_true_iff {t r : Ty} :
    m.isWidening t r = true ↔
      t ≠ Language.objectTy ∧ m.erasesToObject t = true ∧ m.erasesToObject r = false := by
  simp [isWidening, and_assoc]

theorem isWidening_eq_false_of_erases {t r : Ty} (h : m.erasesToObject r = true) :
    m.isWidening t r = false := by
  simp [isWidening, h]

/-! ## The comparison with what is refined -/

theorem widensInherited_eq_false {t r : Ty} (ht : m.erasesToObject t = false)
    (hr : m.erasesToObject r = true) : m.widensInherited t r = false := by
  unfold widensInherited
  split
  · rw [not_erases_of_isParam rfl] at hr
    contradiction
  · simp [ht, hr]

/-- A type that does not erase widens nothing that does. -/
theorem widensRefined_eq_false {r refined : MemberRef}
    (ht : m.erasesToObject (m.refType r) = false)
    (hr : m.erasesToObject (m.refType refined) = true) : m.widensRefined r refined = false := by
  have hparam : (m.refType refined).isParam = false := by
    by_contra hp
    rw [not_erases_of_isParam (by simpa using hp)] at hr
    contradiction
  simp [widensRefined, isWidening, ht, hparam, widensTypeArguments,
    widensInherited_eq_false ht hr]

/-- The chosen signature erases, other than as the object type, only when both
the member's own type and that of what it refines do. -/
theorem erases_of_nonWideningRef {r : MemberRef}
    (herases : m.erasesToObject (m.refType (m.nonWideningRef r)) = true)
    (hobject : m.refType (m.nonWideningRef r) ≠ Language.objectTy) :
    m.erasesToObject (m.refType r) = true ∧
      ∀ refined, m.refinedRef? r = some refined →
        m.erasesToObject (m.refType refined) = true := by
  unfold nonWideningRef at herases hobject
  cases hrefined : m.refinedRef? r with
  | none =>
    rw [hrefined] at herases
    exact ⟨herases, by simp⟩
  | some refined =>
    simp only [hrefined] at herases hobject
    split at herases
    · rename_i hwidens
      have hown : m.erasesToObject (m.refType r) = true := by
        by_contra hnot
        rw [widensRefined_eq_false (by simpa using hnot) herases] at hwidens
        contradiction
      refine ⟨hown, ?_⟩
      rintro _ ⟨rfl⟩
      exact herases
    · rename_i hwidens
      rw [if_neg hwidens] at hobject
      refine ⟨herases, ?_⟩
      rintro _ ⟨rfl⟩
      by_contra hnot
      have hwide : m.isWidening (m.refType r) (m.refType refined) = true :=
        isWidening_eq_true_iff.mpr ⟨hobject, herases, by simpa using hnot⟩
      simp [widensRefined, hwide] at hwidens

/-! ## The search for candidates -/

/-- Whatever instantiation through a direct supertype is picked, it is precise. -/
theorem not_erases_of_directInstance? {declaring g : DeclId} {r : MemberRef}
    (h : m.directInstance? declaring g = some r) : m.erasesToObject (m.refType r) = false := by
  unfold directInstance? at h
  split at h
  · contradiction
  · split at h
    · have hr := List.find?_some h
      simp only [Bool.and_eq_true, Bool.not_eq_true'] at hr
      exact hr.2
    · contradiction

/-- Whatever candidate is picked, it is precise. -/
theorem not_erases_of_pickCandidate? {outer : Ty} {declaring g : DeclId}
    {candidates : List DeclId} {r : MemberRef}
    (h : m.pickCandidate? outer declaring g candidates = some r) :
    m.erasesToObject (m.refType r) = false := by
  unfold pickCandidate? at h
  simp only at h
  split at h
  · rename_i hfound
    obtain ⟨rfl⟩ := h
    have hparam := List.find?_some hfound
    exact not_erases_of_isTypeParameter hparam
  · split at h
    · rename_i hfound
      obtain ⟨rfl⟩ := h
      simpa using List.find?_some hfound
    · exact not_erases_of_directInstance? h

/-- Nothing is picked only when every candidate erases and the direct
supertypes offer nothing better. -/
theorem pickCandidate?_eq_none_iff {outer : Ty} {declaring g : DeclId}
    {candidates : List DeclId} :
    m.pickCandidate? outer declaring g candidates = none ↔
      (∀ c ∈ candidates, m.erasesToObject (m.refType (m.memberRef outer c)) = true) ∧
        m.directInstance? declaring g = none := by
  constructor
  · intro h
    unfold pickCandidate? at h
    simp only at h
    split at h
    · contradiction
    · split at h
      · contradiction
      · rename_i hnone
        refine ⟨fun c hc => ?_, h⟩
        rw [List.find?_eq_none] at hnone
        simpa using hnone (m.memberRef outer c) (List.mem_map_of_mem hc)
  · rintro ⟨hall, hdirect⟩
    cases hpick : m.pickCandidate? outer declaring g candidates with
    | none => rfl
    | some r =>
      have hprecise := not_erases_of_pickCandidate? hpick
      unfold pickCandidate? at hpick
      simp only at hpick
      have hmem : ∀ {p : MemberRef → Bool} {x : MemberRef},
          (candidates.map (m.memberRef outer)).find? p = some x →
            m.erasesToObject (m.refType x) = true := by
        intro p x hx
        obtain ⟨c, hc, rfl⟩ := List.mem_map.mp (List.mem_of_find?_eq_some hx)
        exact hall c hc
      split at hpick
      · rename_i hfound
        obtain ⟨rfl⟩ := hpick
        rw [hmem hfound] at hprecise
        contradiction
      · split at hpick
        · rename_i hfound
          obtain ⟨rfl⟩ := hpick
          rw [hmem hfound] at hprecise
          contradiction
        · rw [hdirect] at hpick
          contradiction

/-- The direct supertypes offer nothing precise exactly when the refined
declaration's type is no bare parameter, or each instantiates it by a parameter
or by something that erases. -/
theorem directInstance?_eq_none_iff {declaring g : DeclId} :
    m.directInstance? declaring g = none ↔
      ∀ p, (m.decl g).ty = some (.param p) → ∀ s ∈ (m.decl declaring).supertypes,
        (m.refType (m.memberRef s g)).isTypeParameter = true ∨
          m.erasesToObject (m.refType (m.memberRef s g)) = true := by
  unfold directInstance?
  cases hty : (m.decl g).ty with
  | none => simp
  | some t =>
    cases t with
    | param p =>
      simp only [Ty.isParam, if_true, List.find?_eq_none, List.mem_map, forall_exists_index,
        and_imp, forall_apply_eq_imp_iff₂, Bool.and_eq_true, Bool.not_eq_true', not_and,
        Bool.not_eq_false, Option.some.injEq]
      constructor
      · intro h _ _ s hs
        cases hparam : (m.refType (m.memberRef s g)).isTypeParameter with
        | true => exact .inl rfl
        | false => exact .inr (h s hs hparam)
      · intro h s hs hparam
        refine (h p rfl s hs).resolve_left ?_
        simp [hparam]
    | nominal _ _ _ _ | union _ | inter _ | bottom | error => simp [Ty.isParam]

/-! ## When the chosen signature erases -/

/-- Declarations of the member's name that `declaring` inherits or declares. -/
def candidates (m : Model) (declaring x : DeclId) : List DeclId :=
  m.refinedMembers declaring (m.decl x).name

/-- The search for a member `x` of `declaring` lets a type that erases to the root
object through: the member's own type erases, and so does what it refines and,
where several members of the name are inherited, each of them and the direct
supertypes' instantiations of a bare type parameter.  Instantiations of any other
type are not looked at, an optional type parameter included. -/
structure Imprecise (m : Model) (declaring x g : DeclId) (outer : Ty) : Prop where
  own : m.erasesToObject (m.refType ⟨x, some outer⟩) = true
  refined : m.erasesToObject (m.refType (m.memberRef outer g)) = true
  inherited : 1 < (m.candidates declaring x).length →
    ∀ c ∈ m.candidates declaring x, m.erasesToObject (m.refType (m.memberRef outer c)) = true
  direct : 1 < (m.candidates declaring x).length → ∀ p, (m.decl g).ty = some (.param p) →
    ∀ s ∈ (m.decl declaring).supertypes,
      (m.refType (m.memberRef s g)).isTypeParameter = true ∨
        m.erasesToObject (m.refType (m.memberRef s g)) = true

section

variable {declaring x g : DeclId} {outer : Ty}

theorem erasedCandidate?_of_own (hx : m.enclosingType? x = some declaring)
    (hown : m.erasesToObject (m.refType ⟨x, some outer⟩) = true) :
    m.erasedCandidate? ⟨x, some outer⟩ outer g =
      if 1 < (m.candidates declaring x).length then
        m.pickCandidate? outer declaring g (m.candidates declaring x)
      else none := by
  have hparam : (m.refType ⟨x, some outer⟩).isTypeParameter = false := by
    by_contra hp
    rw [not_erases_of_isTypeParameter (by simpa using hp)] at hown
    contradiction
  simp only [erasedCandidate?, hx, hown, hparam, Bool.not_false, Bool.and_self, if_true]
  rfl

theorem refinedRef?_eq (hg : (m.decl x).refined = some g) (hne : g ≠ x) :
    m.refinedRef? ⟨x, some outer⟩ =
      some ((m.erasedCandidate? ⟨x, some outer⟩ outer g).getD (m.memberRef outer g)) := by
  simp only [refinedRef?, hg, if_neg hne]
  cases m.erasedCandidate? ⟨x, some outer⟩ outer g <;> rfl

/-- The chosen signature erases, other than as the object type, only when all
that was looked at does. -/
theorem imprecise_of_erases (hx : m.enclosingType? x = some declaring)
    (hg : (m.decl x).refined = some g) (hne : g ≠ x)
    (herases : m.erasesToObject (m.refType (m.nonWideningRef ⟨x, some outer⟩)) = true)
    (hobject : m.refType (m.nonWideningRef ⟨x, some outer⟩) ≠ Language.objectTy) :
    m.Imprecise declaring x g outer := by
  obtain ⟨hown, hrefined⟩ := erases_of_nonWideningRef herases hobject
  have hchosen := hrefined _ (refinedRef?_eq hg hne)
  rw [erasedCandidate?_of_own hx hown] at hchosen
  have hnone : 1 < (m.candidates declaring x).length →
      m.pickCandidate? outer declaring g (m.candidates declaring x) = none := by
    intro hmany
    rw [if_pos hmany] at hchosen
    cases hpick : m.pickCandidate? outer declaring g (m.candidates declaring x) with
    | none => rfl
    | some r =>
      rw [hpick, Option.getD_some, not_erases_of_pickCandidate? hpick] at hchosen
      contradiction
  refine ⟨hown, ?_, fun hmany => ?_, fun hmany => ?_⟩
  · by_cases hmany : 1 < (m.candidates declaring x).length
    · rwa [if_pos hmany, hnone hmany] at hchosen
    · rwa [if_neg hmany] at hchosen
  · exact (pickCandidate?_eq_none_iff.mp (hnone hmany)).1
  · exact directInstance?_eq_none_iff.mp (pickCandidate?_eq_none_iff.mp (hnone hmany)).2

/-- Where all that was looked at erases, so does the chosen signature. -/
theorem erases_of_imprecise (hx : m.enclosingType? x = some declaring)
    (hg : (m.decl x).refined = some g) (hne : g ≠ x) (h : m.Imprecise declaring x g outer) :
    m.erasesToObject (m.refType (m.nonWideningRef ⟨x, some outer⟩)) = true := by
  have hnone : m.erasedCandidate? ⟨x, some outer⟩ outer g = none := by
    rw [erasedCandidate?_of_own hx h.own]
    split
    · rename_i hmany
      exact pickCandidate?_eq_none_iff.mpr
        ⟨h.inherited hmany, directInstance?_eq_none_iff.mpr (h.direct hmany)⟩
    · rfl
  simp only [nonWideningRef, refinedRef?_eq hg hne, hnone, Option.getD_none]
  split
  · exact h.refined
  · exact h.own

end

/-! ## The member among its candidates -/

/-- The direct members of every declaration have names of their own. -/
def DistinctMembers (m : Model) : Prop :=
  ∀ d, ∀ x ∈ m.members d, ∀ y ∈ m.members d, (m.decl x).name = (m.decl y).name → x = y

theorem mem_members_iff {d x : DeclId} :
    x ∈ m.members d ↔ x ∈ m.declIds ∧ (m.decl x).container = some d := by
  simp [members]

theorem distinctMembers_iff :
    m.DistinctMembers ↔
      ∀ x ∈ m.declIds, ∀ y ∈ m.declIds, (m.decl x).container.isSome = true →
        (m.decl x).container = (m.decl y).container → (m.decl x).name = (m.decl y).name →
          x = y := by
  constructor
  · intro h x hx y hy hsome heq
    obtain ⟨d, hd⟩ := Option.isSome_iff_exists.mp hsome
    exact h d x (mem_members_iff.mpr ⟨hx, hd⟩) y (mem_members_iff.mpr ⟨hy, heq ▸ hd⟩)
  · intro h d x hx y hy
    obtain ⟨hx, hxd⟩ := mem_members_iff.mp hx
    obtain ⟨hy, hyd⟩ := mem_members_iff.mp hy
    exact h x hx y hy (by simp [hxd]) (hxd.trans hyd.symm)

instance (m : Model) : Decidable m.DistinctMembers := decidable_of_iff' _ distinctMembers_iff

theorem mem_members_of_refined {x g declaring : DeclId} (hg : (m.decl x).refined = some g)
    (hx : (m.decl x).container = some declaring) : x ∈ m.members declaring := by
  have hlt : x.index < m.declCount := by
    by_contra hge
    rw [decl_eq_default (Nat.le_of_not_lt hge)] at hg
    contradiction
  refine mem_members_iff.mpr ⟨?_, hx⟩
  simp only [declIds, List.mem_map, List.mem_range]
  exact ⟨x.index, hlt, rfl⟩

/-- Where names are distinct, looking a member up by its name finds it. -/
theorem directMember?_of_mem (hdistinct : m.DistinctMembers) {x declaring : DeclId}
    (hx : x ∈ m.members declaring) :
    m.directMember? declaring (m.decl x).name = some x := by
  unfold directMember?
  cases hfound : (m.members declaring).find? (fun y => (m.decl y).name == (m.decl x).name) with
  | none =>
    rw [List.find?_eq_none] at hfound
    exact absurd (beq_self_eq_true _) (hfound x hx)
  | some y =>
    have hname : (m.decl y).name = (m.decl x).name := by simpa using List.find?_some hfound
    rw [hdistinct declaring y (List.mem_of_find?_eq_some hfound) x hx hname]

theorem mem_found_addMember (v : Visit) (x : DeclId) : x ∈ (v.addMember (some x)).found := by
  simp only [Visit.addMember]
  split
  · assumption
  · simp

/-- A declaration's own member is among the members of its name. -/
theorem mem_refinedMembers {declaring x : DeclId} {name : String}
    (h : m.directMember? declaring name = some x) : x ∈ m.refinedMembers declaring name := by
  unfold refinedMembers visitMembers
  rw [if_neg (by simp [Visit.start]), h]
  exact mem_found_addMember _ x

theorem mem_candidates (hdistinct : m.DistinctMembers) {declaring x g : DeclId}
    (hx : m.enclosingType? x = some declaring) (hg : (m.decl x).refined = some g) :
    x ∈ m.candidates declaring x := by
  have hcontainer : (m.decl x).container = some declaring := by
    rw [enclosingType?, Option.filter_eq_some_iff] at hx
    exact hx.1
  exact mem_refinedMembers
    (directMember?_of_mem hdistinct (mem_members_of_refined hg hcontainer))

theorem supertypeWithin_self {t : Ty} {d : DeclId} (h : t.decl? = some d) (fuel : Nat) :
    m.supertypeWithin d fuel t = some t := by
  cases t with
  | nominal d' as o hint =>
    obtain rfl : d' = d := by simpa [Ty.decl?] using h
    cases fuel with
    | zero => rw [supertypeWithin_zero, climb, if_pos rfl]
    | succ fuel => rw [supertypeWithin_succ, climb, if_pos rfl]
  | union _ | inter _ | param _ | bottom | error => contradiction

/-- An instantiation of a declaration is its own supertype. -/
theorem supertype?_self {t : Ty} {d : DeclId} (h : t.decl? = some d) :
    m.supertype? t d = some t :=
  supertypeWithin_self h m.climbLimit

theorem memberRef_of_decl? {t : Ty} {x d : DeclId} (hx : m.enclosingType? x = some d)
    (h : t.decl? = some d) : m.memberRef t x = ⟨x, some t⟩ := by
  rw [enclosingType?, Option.filter_eq_some_iff] at hx
  rw [memberRef, hx.1, Option.bind_some, supertype?_self h]

/-! ## Two hierarchies

`diamond` inherits one generic attribute through two instantiations, of which
the first one erases.  In `nested` a member refines an attribute that its class
does not inherit, and can be seen through a class inside its own. -/

/-- `interface Source<out E> { formal source get; }`, with `Names` and `Things`
satisfying it at strings and at identifiable values, and a class `Impl` that
satisfies `Things & Names` and declares `actual own get`. -/
def diamond (source own : Ty) : Model where
  decls := #[
    { Declaration.bare "Source" .iface "demo" none with typeParams := [⟨10⟩] },
    { Declaration.bare "get" .attribute "demo" (some ⟨22⟩) with ty := some source },
    { Declaration.bare "Names" .iface "demo" none with
      satisfied := [.of ⟨22⟩ [Language.stringTy]] },
    { Declaration.bare "Things" .iface "demo" none with
      satisfied := [.of ⟨22⟩ [Language.identifiableTy]] },
    { Declaration.bare "Impl" .cls "demo" none with
      extended := some Language.objectTy, satisfied := [.of ⟨25⟩ [], .of ⟨24⟩ []] },
    { Declaration.bare "get" .attribute "demo" (some ⟨26⟩) with
      ty := some own, refined := some ⟨23⟩ }]
  params := #[⟨"E", .covariant, [], ⟨22⟩, false⟩]

/-- The attribute's type is a bare type parameter. -/
def bareDiamond : Model := diamond (.param ⟨10⟩) Language.identifiableTy

/-- The attribute's type is an optional type parameter. -/
def optionalDiamond : Model :=
  diamond (.optional (.param ⟨10⟩)) (.optional Language.identifiableTy)

/-- `interface G { Identifiable g; }` and `class D<T> { actual T x; }` whose `x`
refines `g`, with a class `E extends D<String>` inside `D`. -/
def nested : Model where
  decls := #[
    .bare "G" .iface "demo" none,
    { Declaration.bare "g" .attribute "demo" (some ⟨22⟩) with
      ty := some Language.identifiableTy },
    { Declaration.bare "D" .cls "demo" none with
      typeParams := [⟨10⟩], extended := some Language.objectTy },
    { Declaration.bare "x" .attribute "demo" (some ⟨24⟩) with
      ty := some (.param ⟨10⟩), refined := some ⟨23⟩ },
    { Declaration.bare "E" .cls "demo" (some ⟨24⟩) with
      extended := some (.of ⟨24⟩ [Language.stringTy]) }]
  params := #[⟨"T", .invariant, [], ⟨24⟩, false⟩]

/-! ## What the chosen signature widens -/

/-- The signature chosen for a member widens neither what the member refines nor
any candidate, all seen through the type that the member is seen through.  The
member itself counts as one, except where it is the only candidate and is seen
through something else than an instantiation of its container. -/
theorem nonWideningRef_widens_no_candidate {declaring x g : DeclId} (outer : Ty)
    (hdistinct : m.DistinctMembers) (hx : m.enclosingType? x = some declaring)
    (hg : (m.decl x).refined = some g) (hne : g ≠ x) :
    m.isWidening (m.refType (m.nonWideningRef ⟨x, some outer⟩))
        (m.refType (m.memberRef outer g)) = false ∧
      ∀ c ∈ m.candidates declaring x,
        (c = x → outer.decl? = some declaring ∨ m.candidates declaring x ≠ [x]) →
          m.isWidening (m.refType (m.nonWideningRef ⟨x, some outer⟩))
            (m.refType (m.memberRef outer c)) = false := by
  by_cases hwide : m.erasesToObject (m.refType (m.nonWideningRef ⟨x, some outer⟩)) = true ∧
      m.refType (m.nonWideningRef ⟨x, some outer⟩) ≠ Language.objectTy
  · have himprecise := imprecise_of_erases hx hg hne hwide.1 hwide.2
    refine ⟨isWidening_eq_false_of_erases himprecise.refined, fun c hc hself => ?_⟩
    refine isWidening_eq_false_of_erases ?_
    by_cases hmany : 1 < (m.candidates declaring x).length
    · exact himprecise.inherited hmany c hc
    · -- The member itself is a candidate, so it is the only one.
      have hsole : m.candidates declaring x = [x] := by
        have hmem := mem_candidates hdistinct hx hg
        have hpos := List.length_pos_of_mem hmem
        obtain ⟨y, hy⟩ := List.length_eq_one_iff.mp (by omega : (m.candidates declaring x).length = 1)
        rw [hy] at hmem ⊢
        rw [List.mem_singleton.mp hmem]
      have hcx : c = x := by simpa [hsole] using hc
      subst hcx
      rw [memberRef_of_decl? hx ((hself rfl).resolve_right (by simp [hsole]))]
      exact himprecise.own
  · have hnever : ∀ r, m.isWidening (m.refType (m.nonWideningRef ⟨x, some outer⟩)) r = false := by
      intro r
      by_contra hnot
      have hwidens := isWidening_eq_true_iff.mp (by simpa using hnot)
      exact hwide ⟨hwidens.2.1, hwidens.1⟩
    exact ⟨hnever _, fun c _ _ => hnever _⟩

theorem bareDiamond_widens_no_candidate :
    bareDiamond.DistinctMembers ∧ bareDiamond.enclosingType? ⟨27⟩ = some ⟨26⟩ ∧
      bareDiamond.isWidening
        (bareDiamond.refType (bareDiamond.nonWideningRef ⟨⟨27⟩, some (.of ⟨26⟩ [])⟩))
        (bareDiamond.refType (bareDiamond.memberRef (.of ⟨26⟩ []) ⟨23⟩)) = false ∧
      bareDiamond.isWidening
        (bareDiamond.refType (bareDiamond.nonWideningRef ⟨⟨27⟩, some (.of ⟨26⟩ [])⟩))
        (bareDiamond.refType (bareDiamond.memberRef (.of ⟨26⟩ []) ⟨27⟩)) = false :=
  have hdistinct : bareDiamond.DistinctMembers := by decide
  have hsafe := nonWideningRef_widens_no_candidate (m := bareDiamond) (x := ⟨27⟩) (.of ⟨26⟩ [])
    hdistinct (by decide : _ = some ⟨26⟩) (by decide : _ = some ⟨23⟩) (by decide)
  ⟨hdistinct, by decide, hsafe.1, hsafe.2 ⟨27⟩ (by decide) (by decide)⟩

/-- Seen through a class nested in its container, a member that is its only
candidate can be emitted with a type that widens its own instantiation. -/
theorem nested_nonWideningRef_widens :
    nested.DistinctMembers ∧ nested.enclosingType? ⟨25⟩ = some ⟨24⟩ ∧
      (nested.decl ⟨25⟩).refined = some ⟨23⟩ ∧
      (⟨25⟩ : DeclId) ∈ nested.refinedMembers ⟨24⟩ (nested.decl ⟨25⟩).name ∧
      nested.isWidening
        (nested.refType (nested.nonWideningRef
          ⟨⟨25⟩, some (.nominal ⟨26⟩ [] (some (.of ⟨24⟩ [Language.identifiableTy])) none)⟩))
        (nested.refType (nested.memberRef
          (.nominal ⟨26⟩ [] (some (.of ⟨24⟩ [Language.identifiableTy])) none) ⟨25⟩)) = true := by
  decide

theorem ownRef_eq {declaring x : DeclId} (hx : m.enclosingType? x = some declaring) :
    m.ownRef x = ⟨x, some (m.declaredType declaring)⟩ := by
  rw [ownRef, hx]
  exact memberRef_of_decl? hx rfl

/-- The exact condition under which a member as it is declared is emitted with a
signature that widens an instantiation of what it refines: the instantiation is
precise, the chosen type is not the object type, and all that was looked at
erases.  No instantiation of a bare type parameter through a direct supertype is
widened, unless by a parameter again; those of an optional type parameter are
(`optionalDiamond_widens_instance`), which the search should have found. -/
theorem nonWideningRef_widens_instance_iff {declaring x g : DeclId} {s : Ty}
    (hx : m.enclosingType? x = some declaring) (hg : (m.decl x).refined = some g)
    (hne : g ≠ x) (hs : s ∈ (m.decl declaring).supertypes) :
    (m.isWidening (m.refType (m.nonWideningRef (m.ownRef x)))
        (m.refType (m.memberRef s g)) = true ↔
      m.erasesToObject (m.refType (m.memberRef s g)) = false ∧
        m.refType (m.nonWideningRef (m.ownRef x)) ≠ Language.objectTy ∧
          m.Imprecise declaring x g (m.declaredType declaring)) ∧
      ∀ p, (m.decl g).ty = some (.param p) → 1 < (m.candidates declaring x).length →
        (m.refType (m.memberRef s g)).isTypeParameter = false →
          m.isWidening (m.refType (m.nonWideningRef (m.ownRef x)))
            (m.refType (m.memberRef s g)) = false := by
  have hiff : m.isWidening (m.refType (m.nonWideningRef (m.ownRef x)))
        (m.refType (m.memberRef s g)) = true ↔
      m.erasesToObject (m.refType (m.memberRef s g)) = false ∧
        m.refType (m.nonWideningRef (m.ownRef x)) ≠ Language.objectTy ∧
          m.Imprecise declaring x g (m.declaredType declaring) := by
    rw [isWidening_eq_true_iff, ownRef_eq hx]
    constructor
    · rintro ⟨hobject, herases, hprecise⟩
      exact ⟨hprecise, hobject, imprecise_of_erases hx hg hne herases hobject⟩
    · rintro ⟨hprecise, hobject, himprecise⟩
      exact ⟨hobject, erases_of_imprecise hx hg hne himprecise, hprecise⟩
  refine ⟨hiff, fun p hp hmany hparam => ?_⟩
  by_contra hnot
  obtain ⟨hprecise, _, himprecise⟩ := hiff.mp (by simpa using hnot)
  rcases himprecise.direct hmany p hp s hs with h | h
  · rw [h] at hparam
    contradiction
  · rw [h] at hprecise
    contradiction

theorem bareDiamond_widens_no_instance :
    bareDiamond.enclosingType? ⟨27⟩ = some ⟨26⟩ ∧
      Ty.of ⟨24⟩ [] ∈ (bareDiamond.decl ⟨26⟩).supertypes ∧
      bareDiamond.isWidening (bareDiamond.refType (bareDiamond.nonWideningRef
          (bareDiamond.ownRef ⟨27⟩)))
        (bareDiamond.refType (bareDiamond.memberRef (.of ⟨24⟩ []) ⟨23⟩)) = false :=
  have hmem : Ty.of ⟨24⟩ [] ∈ (bareDiamond.decl ⟨26⟩).supertypes := by decide
  ⟨by decide, hmem, (nonWideningRef_widens_instance_iff (m := bareDiamond) (x := ⟨27⟩)
    (by decide : _ = some ⟨26⟩) (by decide : _ = some ⟨23⟩) (by decide) hmem).2 ⟨10⟩ (by decide)
    (by decide) (by decide)⟩

/-- Where the inherited attribute has an optional parameter for its type, the
chosen signature widens the instantiation at strings: the search ends before it
looks at the direct supertypes. -/
theorem optionalDiamond_widens_instance :
    optionalDiamond.enclosingType? ⟨27⟩ = some ⟨26⟩ ∧
      (optionalDiamond.decl ⟨27⟩).refined = some ⟨23⟩ ∧
      Ty.of ⟨24⟩ [] ∈ (optionalDiamond.decl ⟨26⟩).supertypes ∧
      (optionalDiamond.memberRef (.of ⟨24⟩ []) ⟨23⟩).outer =
        some (.of ⟨22⟩ [Language.stringTy]) ∧
      optionalDiamond.isWidening (optionalDiamond.refType (optionalDiamond.nonWideningRef
          (optionalDiamond.ownRef ⟨27⟩)))
        (optionalDiamond.refType (optionalDiamond.memberRef (.of ⟨24⟩ []) ⟨23⟩)) = true := by
  decide

end Model

end TreeLowering
