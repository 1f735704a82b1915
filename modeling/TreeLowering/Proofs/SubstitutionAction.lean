import TreeLowering.Proofs.PoolRun
import TreeLowering.Proofs.RefinementSafety
set_option autoImplicit false

/-!
# Proofs: substitution acts on the types of a pool

Substitution in a pool goes from a node to its parts, which are at smaller
positions, so it comes to an end however much the pool grows on the way.
Substituting twice answers with the position that substituting once, by the
substituted arguments, answers with: both read back as the same type, and a
sound pool has each type once.  Substituting parameters by themselves builds
every node that it comes to again, and so answers with the position that it was
given and leaves the pool as it is.

The type of a declaration seen from inside it substitutes parameters by
themselves, so that a member seen through it has the type it was declared with.
-/

namespace TreeLowering

open TypePool Pooled

/-! ## Substitution as an action on types -/

namespace Subst

variable {s s' : Subst}

/-- Gives each parameter of `s` its argument with `s'` substituted, and every
other parameter what `s'` gives it. -/
def andThen (s s' : Subst) : Subst :=
  ⟨s.entries.map (fun e => (e.1, e.2.subst s')) ++ s'.entries⟩

theorem get?_andThen (s s' : Subst) (p : ParamId) :
    (s.andThen s').get? p = ((s.get? p).map (Ty.subst s')).or (s'.get? p) := by
  unfold andThen get?
  rw [List.lookup_append]
  congr 1
  induction s.entries with
  | nil => rfl
  | cons e es ih =>
    rw [List.map_cons, List.lookup_cons, List.lookup_cons]
    split
    · rfl
    · exact ih

/-- Each argument is the parameter that it is given for. -/
def Identity (s : Subst) : Prop := ∀ e ∈ s.entries, e.2 = .param e.1

theorem identity_empty : empty.Identity := fun _ he => absurd he List.not_mem_nil

theorem Identity.insert (h : s.Identity) (p : ParamId) : (s.insert p (.param p)).Identity :=
  List.forall_mem_cons.mpr ⟨rfl, fun e he => h e (List.mem_filter.mp he).1⟩

theorem Identity.insertAll (h : s.Identity) {entries : List (ParamId × Ty)}
    (hentries : ∀ e ∈ entries, e.2 = .param e.1) : (s.insertAll entries).Identity := by
  unfold Subst.insertAll
  induction entries generalizing s with
  | nil => exact h
  | cons e entries ih =>
    obtain ⟨he, hrest⟩ := List.forall_mem_cons.mp hentries
    rw [List.foldl_cons, he]
    exact ih (h.insert e.1) hrest

theorem Identity.get? (h : s.Identity) {p : ParamId} {t : Ty} (ht : s.get? p = some t) :
    t = .param p := by
  obtain ⟨before, after, heq, -⟩ := List.lookup_eq_some_iff.mp ht
  exact h (p, t) (by rw [heq]; simp)

end Subst

/-- Two substitutions one after the other are one substitution. -/
theorem Ty.subst_subst (s s' : Subst) (t : Ty) :
    (t.subst s).subst s' = t.subst (s.andThen s') := by
  rw [Ty.subst, Ty.subst, Ty.subst, Ty.replace_replace]
  refine congrArg (Ty.replace · t) (funext fun p => ?_)
  rw [Subst.get?_andThen]
  cases s.get? p with
  | none => rw [Option.getD_none, Ty.replace]; rfl
  | some u => rfl

theorem Ty.subst_identity {s : Subst} (h : s.Identity) (t : Ty) : t.subst s = t := by
  have hparam : (fun p => (s.get? p).getD (.param p)) = Ty.param := by
    funext p
    cases hp : s.get? p with
    | none => rfl
    | some u => exact h.get? hp
  rw [Ty.subst, hparam, Ty.replace_param]

namespace Model

variable {m : Model}

theorem bindSegment_selfApplied {s : Subst} (hs : s.Identity) (m : Model) (d : DeclId)
    (o : Option Ty) : (m.bindSegment (m.selfApplied d o) s).Identity := by
  refine hs.insertAll fun e he => ?_
  have hzip := (List.mem_filter.mp he).1
  rw [← List.map_prod_left_eq_zip] at hzip
  obtain ⟨p, -, rfl⟩ := List.mem_map.mp hzip
  rfl

/-- Seen from inside a declaration, its parameters and those around it stand for
themselves. -/
theorem substitution_declaredType (m : Model) (d : DeclId) :
    (m.substitution (m.declaredType d)).Identity := by
  have happlied : ∀ e o, (∀ q ∈ o, (m.substitution q).Identity) →
      (m.substitution (m.selfApplied e o)).Identity := by
    intro e o ho
    rw [selfApplied, PooledModel.substitution_nominal]
    refine bindSegment_selfApplied ?_ m e o
    cases o with
    | none => exact Subst.identity_empty
    | some q => exact ho q rfl
  have hnested : ∀ ds : List DeclId, ∀ q ∈ m.nestedType ds, (m.substitution q).Identity := by
    intro ds
    induction ds with
    | nil => simp [nestedType]
    | cons e around ih =>
      rintro q ⟨⟩
      exact happlied e _ ih
  exact happlied d _ (hnested _)

/-- A member seen through the type of its container has the type it was declared
with. -/
theorem refType_ownRef {d : DeclId} {t : Ty} (ht : (m.decl d).ty = some t) :
    m.refType (m.ownRef d) = t := by
  cases hd : m.enclosingType? d with
  | none =>
    rw [ownRef, hd, refType, ht]
  | some c =>
    rw [ownRef_eq hd, refType, ht]
    exact Ty.subst_identity (m.substitution_declaredType c) t

end Model

namespace Pooled

variable {α β : Type} {p q : TypePool} {i : TypeIdx}

/-! ## Computations that return -/

/-- In every pool that the pool grows to, the computation has an answer. -/
def Returns (x : Pooled α) (p : TypePool) : Prop := ∀ q, Grows p q → ∃ a r, x q = some (a, r)

namespace Returns

theorem pure (a : α) : Returns (Pure.pure a) p := fun q _ => ⟨a, q, rfl⟩

theorem building (f : TypePool → α × TypePool) : Returns (building f) p :=
  fun q _ => ⟨(f q).1, (f q).2, rfl⟩

theorem bind {x : Pooled α} {f : α → Pooled β} (hx : Returns x p) (hinterns : Interns x)
    (hf : ∀ a, Returns (f a) p) : Returns (x >>= f) p := by
  intro q hq
  obtain ⟨a, r, hr⟩ := hx q hq
  obtain ⟨b, s, hs⟩ := hf a r (hq.trans (hinterns q a r hr))
  exact ⟨b, s, run_bind.mpr ⟨a, r, hr, hs⟩⟩

theorem map {x : Pooled α} (hx : Returns x p) (f : α → β) : Returns (f <$> x) p := by
  intro q hq
  obtain ⟨a, r, hr⟩ := hx q hq
  exact ⟨f a, r, run_map.mpr ⟨a, hr, rfl⟩⟩

/-- A stored node is still the same when it is read. -/
theorem nodeAt {f : TypeNode → Pooled β} (hi : p.Has i) (hf : Returns (f (p.node i)) p) :
    Returns (nodeAt i >>= f) p := by
  intro q hq
  obtain ⟨b, r, hr⟩ := hf q hq
  refine ⟨b, r, run_bind.mpr ⟨q.node i, q, rfl, ?_⟩⟩
  rw [hq.node hi]
  exact hr

theorem each {f : TypeIdx → Pooled TypeIdx} (hf : ∀ i, Interns (f i)) :
    ∀ {is : List TypeIdx}, (∀ i ∈ is, Returns (f i) p) → Returns (each f is) p
  | [], _ => pure []
  | i :: is, h => by
    refine (h i List.mem_cons_self).bind (hf i) fun j => ?_
    exact (each hf fun a ha => h a (List.mem_cons_of_mem _ ha)).bind (Interns.each hf is)
      fun js => pure _

theorem ifAny {f : TypeIdx → Pooled TypeIdx} {o : Option TypeIdx}
    (h : ∀ i ∈ o, Returns (f i) p) : Returns (ifAny f o) p := by
  cases o with
  | none => exact pure none
  | some i => exact (h i rfl).map some

end Returns

/-! ## Computations that answer with what they are given -/

theorem each_self {f : TypeIdx → Pooled TypeIdx} {is : List TypeIdx}
    (h : ∀ i ∈ is, f i p = some (i, p)) : each f is p = some (is, p) := by
  induction is with
  | nil => rfl
  | cons i is ih =>
    refine run_bind.mpr ⟨i, p, h i List.mem_cons_self, ?_⟩
    exact run_bind.mpr ⟨is, p, ih fun a ha => h a (List.mem_cons_of_mem _ ha), rfl⟩

theorem ifAny_self {f : TypeIdx → Pooled TypeIdx} {o : Option TypeIdx}
    (h : ∀ i ∈ o, f i p = some (i, p)) : ifAny f o p = some (o, p) := by
  cases o with
  | none => rfl
  | some i => exact run_map.mpr ⟨i, h i rfl, rfl⟩

end Pooled

namespace PoolSubst

variable {p : TypePool} {i : TypeIdx} {s : PoolSubst}

/-! ## Substitution returns -/

/-- A substitution that may go deeper than the position comes to an end. -/
theorem apply_returns (s : PoolSubst) (hp : p.Closed) : ∀ {fuel : Nat} {i : TypeIdx}, p.Has i →
    i.index < fuel → Returns (s.apply fuel i) p
  | 0, _, _, hfuel => absurd hfuel (Nat.not_lt_zero _)
  | fuel + 1, i, hi, hfuel => by
    have hinterns : ∀ j, Interns (s.apply fuel j) := s.apply_interns fuel
    have hpart : ∀ j ∈ (p.node i).parts, Returns (s.apply fuel j) p := fun j hj =>
      apply_returns s hp (hp.has hi hj) (Nat.lt_of_lt_of_le (hp i hi j hj) (Nat.le_of_lt_succ hfuel))
    unfold PoolSubst.apply
    split
    · exact .pure i
    · refine .nodeAt hi ?_
      generalize p.node i = n at hpart
      cases n with
      | param a => exact .pure _
      | nominal d as o h =>
        refine (Returns.each hinterns fun j hj => hpart j (List.mem_append_right _ hj)).bind
          (.each hinterns as) fun args => ?_
        refine (Returns.ifAny fun j hj => hpart j ?_).bind (.ifAny hinterns o)
          fun outer => .building _
        exact List.mem_append_left _ (Option.mem_toList.mpr hj)
      | union cases =>
        exact (Returns.each hinterns hpart).bind (.each hinterns cases) fun _ => .building _
      | inter bounds =>
        exact (Returns.each hinterns hpart).bind (.each hinterns bounds) fun _ => .building _
      | bottom => exact .pure i
      | error => exact .pure i

/-! ## Substituting twice -/

/-- Gives each parameter of `s` its argument with `s'` substituted, and every
other parameter what `s'` gives it. -/
def andThen (s s' : PoolSubst) (fuel : Nat) : Pooled PoolSubst := do
  let replaced ← each (s'.apply fuel) (s.map Prod.snd)
  pure ((s.map Prod.fst).zip replaced ++ s')

theorem andThen_interns (s s' : PoolSubst) (fuel : Nat) : Interns (s.andThen s' fuel) :=
  (Interns.each (s'.apply_interns fuel) _).bind fun _ => .pure _

theorem andThen_returns {s : PoolSubst} (s' : PoolSubst) (hp : p.Closed) (hs : s.Within p)
    {fuel : Nat} (hfuel : ∀ e ∈ s, e.2.index < fuel) : Returns (s.andThen s' fuel) p := by
  refine (Returns.each (s'.apply_interns fuel) fun j hj => ?_).bind
    (.each (s'.apply_interns fuel) _) fun _ => .pure _
  obtain ⟨e, he, rfl⟩ := List.mem_map.mp hj
  exact apply_returns s' hp (hs e he) (hfuel e he)

/-- The arguments read back as the ones that substitute both among types. -/
theorem andThen_leads {s s' : PoolSubst} (hp : p.Sound) (hs : s.Within p) (hs' : s'.Within p)
    (fuel : Nat) : Leads Sound (s.andThen s' fuel) p
      (fun t q => t.Within q ∧ t.read q = (s.read p).andThen (s'.read p)) := by
  have hargs : ∀ q, Grows p q → q.Sound → ∀ j ∈ s.map Prod.snd,
      Leads Sound (s'.apply fuel j) q (fun k r => r.Reads k ((p.ty j).subst (s'.read p))) := by
    intro q hq hsound j hj
    obtain ⟨e, he, rfl⟩ := List.mem_map.mp hj
    have happly := apply_leads fuel hsound (hq.has (hs e he)) (hs'.grows hq)
    rw [hq.ty (hs e he), hs'.read_grows hq] at happly
    exact happly
  refine (Leads.each (s'.apply_interns fuel) hp hargs).bind (fun _ => .pure _)
    fun replaced q hq hsound hreplaced => Leads.pure hsound ⟨fun e he => ?_, ?_⟩
  · rcases List.mem_append.mp he with he | he
    · exact hreplaced.1 e.2 (List.of_mem_zip he).2
    · exact hq.has (hs' e he)
  · have hnew : ((s.map Prod.fst).zip replaced).map (fun e => (e.1, q.ty e.2)) =
        (s.map fun e => (e.1, p.ty e.2)).map fun e => (e.1, e.2.subst (s'.read p)) := by
      have hzip : ((s.map Prod.fst).zip replaced).map (Prod.map id q.ty) =
          (s.map Prod.fst).zip (replaced.map q.ty) := List.zip_map_right.symm
      rw [hreplaced.2, List.map_map, List.zip_map'] at hzip
      rw [List.map_map]
      exact hzip
    rw [PoolSubst.read, List.map_append, hnew]
    exact congrArg (fun es => Subst.mk (_ ++ es)) (congrArg Subst.entries (hs'.read_grows hq))

/-- Substituting twice answers with the position that substituting once, by the
substituted arguments, answers with. -/
theorem apply_andThen {s₁ s₂ s₃ : PoolSubst} (hp : p.Sound) (hs₁ : s₁.Within p)
    (hs₂ : s₂.Within p) (hi : p.Has i) {f₁ f₂ f₃ f₄ : Nat} {j k k' : TypeIdx}
    {q r r₃ r' : TypePool} (hj : s₁.apply f₁ i p = some (j, q))
    (hk : s₂.apply f₂ j q = some (k, r)) (hs₃ : s₁.andThen s₂ f₃ r = some (s₃, r₃))
    (hk' : s₃.apply f₄ i r₃ = some (k', r')) (hsize : r'.size ≤ TypeIdx.count) : k' = k := by
  have hsize₃ : r₃.size ≤ TypeIdx.count :=
    Nat.le_trans (s₃.apply_interns _ _ _ _ _ hk').size_le hsize
  have hsizer : r.size ≤ TypeIdx.count :=
    Nat.le_trans (s₁.andThen_interns s₂ _ _ _ _ hs₃).size_le hsize₃
  have hsizeq : q.size ≤ TypeIdx.count :=
    Nat.le_trans (s₂.apply_interns _ _ _ _ _ hk).size_le hsizer
  obtain ⟨hpq, hq, hjread⟩ := apply_leads f₁ hp hi hs₁ j q hj hsizeq
  obtain ⟨hqr, hr, hkread⟩ := apply_leads f₂ hq hjread.1 (hs₂.grows hpq) k r hk hsizer
  have hpr : Grows p r := hpq.trans hqr
  obtain ⟨hr₃, hsound₃, hwithin, hread⟩ :=
    andThen_leads hr (hs₁.grows hpr) (hs₂.grows hpr) f₃ s₃ r₃ hs₃ hsize₃
  have hpr₃ : Grows p r₃ := hpr.trans hr₃
  obtain ⟨hr', hsound', hkread'⟩ :=
    apply_leads f₄ hsound₃ (hpr₃.has hi) hwithin k' r' hk' hsize
  refine hsound'.ty_inj hkread'.1 ((hr₃.trans hr').has hkread.1) ?_
  calc r'.ty k' = (p.ty i).subst ((s₁.read p).andThen (s₂.read p)) := by
        rw [hkread'.2, hpr₃.ty hi, hread, hs₁.read_grows hpr, hs₂.read_grows hpr]
    _ = ((p.ty i).subst (s₁.read p)).subst (s₂.read p) := (Ty.subst_subst _ _ _).symm
    _ = r'.ty k := by
        rw [(hr₃.trans hr').ty hkread.1, hkread.2, hjread.2, hs₂.read_grows hpq]

/-! ## Substituting parameters by themselves -/

/-- Each argument is the parameter that it is given for. -/
def Identity (s : PoolSubst) (p : TypePool) : Prop := ∀ e ∈ s, p.node e.2 = .param e.1

theorem Identity.node_lookup (hs : s.Identity p) {a : ParamId} {j : TypeIdx}
    (hj : s.lookup a = some j) : p.node j = .param a := by
  obtain ⟨before, after, heq, -⟩ := List.lookup_eq_some_iff.mp hj
  exact hs (a, j) (by rw [heq]; simp)

/-- Substituting parameters by themselves answers with the same position, and
leaves the pool as it is. -/
theorem Identity.apply (hs : s.Identity p) (hp : p.Sound) : ∀ {fuel : Nat} {i : TypeIdx}, p.Has i →
    i.index < fuel → s.apply fuel i p = some (i, p)
  | 0, _, _, hfuel => absurd hfuel (Nat.not_lt_zero _)
  | fuel + 1, i, hi, hfuel => by
    have hpart : ∀ j ∈ (p.node i).parts, s.apply fuel j p = some (j, p) := fun j hj =>
      hs.apply hp (hp.closed.has hi hj)
        (Nat.lt_of_lt_of_le (hp.closed i hi j hj) (Nat.le_of_lt_succ hfuel))
    have hself : p.intern (p.node i) = (i, p) := hp.inverse.intern_node hi
    unfold PoolSubst.apply
    split
    · rfl
    · refine run_bind.mpr ⟨p.node i, p, rfl, ?_⟩
      generalize hnode : p.node i = n at hpart hself
      cases n with
      | param a =>
        dsimp only
        cases ha : s.lookup a with
        | none => rfl
        | some j =>
          have hj : p.node j = .param a := hs.node_lookup ha
          have hhas : p.Has j := has_of_node_ne_error (by rw [hj]; simp)
          rw [hp.inverse.node_inj hhas hi (hj.trans hnode.symm)]
          rfl
      | nominal d as o h =>
        refine run_bind.mpr ⟨as, p, each_self fun j hj => ?_, ?_⟩
        · exact hpart j (List.mem_append_right _ hj)
        refine run_bind.mpr ⟨o, p, ifAny_self fun j hj => ?_, ?_⟩
        · exact hpart j (List.mem_append_left _ (Option.mem_toList.mpr hj))
        · exact congrArg some hself
      | union cases =>
        exact run_bind.mpr ⟨cases, p, each_self hpart, congrArg some hself⟩
      | inter bounds =>
        exact run_bind.mpr ⟨bounds, p, each_self hpart, congrArg some hself⟩
      | bottom => rfl
      | error => rfl

end PoolSubst

/-! ## Members seen from inside -/

theorem TypePool.Closed.node_of_ty {p : TypePool} {i : TypeIdx} (hp : p.Closed) (hi : p.Has i)
    {a : ParamId} (ht : p.ty i = .param a) : p.node i = .param a := by
  rw [hp.ty_eq hi] at ht
  cases hnode : p.node i with
  | param b =>
    rw [hnode] at ht
    cases ht
    rfl
  | nominal _ _ _ _ | union _ | inter _ | bottom | error =>
    rw [hnode] at ht
    contradiction

namespace PooledModel

variable {m : PooledModel} {M : Model} {p : TypePool} {i : TypeIdx}

/-- The type at a position, declared for a member of `container`, instantiated as
the member is seen through another type: by the arguments of the instantiation of
`container` above that type. -/
def refType (m : PooledModel) (container : DeclId) (fuel : Nat) (through declared : TypeIdx) :
    Pooled TypeIdx := do
  match ← m.supertype container fuel through with
  | none => pure declared
  | some outer => do
    let s ← m.substitution fuel outer
    s.apply fuel declared

/-- Collecting the arguments of a stored type comes to an end and builds
nothing. -/
theorem substitution_reads (m : PooledModel) (hp : p.Closed) : ∀ {fuel : Nat} {i : TypeIdx},
    p.Has i → i.index < fuel → ∃ s, m.substitution fuel i p = some (s, p)
  | 0, _, _, hfuel => absurd hfuel (Nat.not_lt_zero _)
  | fuel + 1, i, hi, hfuel => by
    have hpart : ∀ j ∈ (p.node i).parts, ∃ s, m.substitution fuel j p = some (s, p) := fun j hj =>
      m.substitution_reads hp (hp.has hi hj)
        (Nat.lt_of_lt_of_le (hp i hi j hj) (Nat.le_of_lt_succ hfuel))
    refine Exists.imp (fun s hs => run_bind.mpr ⟨p.node i, p, rfl, hs⟩) ?_
    generalize p.node i = n at hpart
    cases n with
    | nominal d as o h =>
      cases o with
      | none => exact ⟨_, rfl⟩
      | some outer =>
        obtain ⟨s, hs⟩ := hpart outer List.mem_cons_self
        exact ⟨m.bind d as s, run_map.mpr ⟨s, hs, rfl⟩⟩
    | union _ | inter _ | param _ | bottom | error => exact ⟨_, rfl⟩

/-- A member of a declaration seen through the type that the declaration has from
inside has the type that it was declared with, at the same position. -/
theorem refType_own (hp : p.Sound) (hsize : p.size ≤ TypeIdx.count) (hlike : m.Like M)
    {container : DeclId} {own : TypeIdx} (hown : p.Reads own (M.declaredType container))
    (hi : p.Has i) {fuel : Nat} (hfuel : own.index < fuel) (hfueli : i.index < fuel) :
    m.refType container fuel own i p = some (i, p) := by
  have hsupertype : m.supertype container fuel own p = some (some own, p) := by
    obtain ⟨fuel, rfl⟩ := Nat.exists_eq_succ_of_ne_zero (Nat.ne_of_gt (Nat.zero_lt_of_lt hfuel))
    have hty := hown.2
    rw [hp.closed.ty_eq hown.1] at hty
    refine run_bind.mpr ⟨p.node own, p, rfl, ?_⟩
    cases hnode : p.node own with
    | nominal d as o h =>
      rw [hnode] at hty
      obtain ⟨rfl, -⟩ := Ty.nominal.inj hty
      dsimp only
      rw [if_pos rfl]
      rfl
    | union _ | inter _ | param _ | bottom | error =>
      rw [hnode] at hty
      contradiction
  obtain ⟨s, hs⟩ := m.substitution_reads hp.closed hown.1 hfuel
  obtain ⟨-, -, -, hwithin, hread⟩ :=
    substitution_leads (C := True) fuel hp hown.1 (fun _ => hlike) s p hs hsize
  have hidentity : s.Identity p := by
    intro e he
    refine hp.closed.node_of_ty (hwithin e he) ?_
    have hentries : (s.read p).Identity := by
      rw [hread trivial, hown.2]
      exact M.substitution_declaredType container
    exact hentries (e.1, p.ty e.2) (List.mem_map_of_mem he)
  refine run_bind.mpr ⟨some own, p, hsupertype, ?_⟩
  exact run_bind.mpr ⟨s, p, hs, hidentity.apply hp hi hfueli⟩

end PooledModel

/-! ## The laws -/

/-- In each pool that a run reaches with positions of the pool only: substitution
returns, and so does substituting arguments into arguments; substituting twice
answers with the very position that substituting once, by the substituted
arguments, answers with; substituting parameters by themselves answers with the
position it was given and leaves the pool as it is; so a member with a declared
type, seen through the type that its container has from inside, has that type,
however deep the declarations around it are nested, and at the same position
where types are positions. -/
theorem substitution_acts {p : TypePool} (h : PoolRun knownOp new p)
    (hsize : p.size ≤ TypeIdx.count) :
    (∀ (s s' : PoolSubst) (i : TypeIdx) (fuel : Nat), s.Within p → s'.Within p → p.Has i →
      i.index < fuel → (∀ e ∈ s, e.2.index < fuel) →
      (∃ j q, s.apply fuel i p = some (j, q) ∧ (q.size ≤ TypeIdx.count → q.Has j)) ∧
        ∃ t q, s.andThen s' fuel p = some (t, q) ∧ (q.size ≤ TypeIdx.count → t.Within q)) ∧
    (∀ (s₁ s₂ s₃ : PoolSubst) (i j k k' : TypeIdx) (q r r₃ r' : TypePool) (f₁ f₂ f₃ f₄ : Nat),
      s₁.Within p → s₂.Within p → p.Has i →
      s₁.apply f₁ i p = some (j, q) → s₂.apply f₂ j q = some (k, r) →
      s₁.andThen s₂ f₃ r = some (s₃, r₃) → s₃.apply f₄ i r₃ = some (k', r') →
      r'.size ≤ TypeIdx.count → k' = k) ∧
    (∀ (s : PoolSubst) (i : TypeIdx) (fuel : Nat), s.Identity p → p.Has i → i.index < fuel →
      s.apply fuel i p = some (i, p)) ∧
    (∀ (M : Model) (x : DeclId) (t : Ty), (M.decl x).ty = some t → M.refType (M.ownRef x) = t) ∧
    ∀ (m : PooledModel) (M : Model) (container : DeclId) (own i : TypeIdx) (fuel : Nat),
      m.Like M → p.Reads own (M.declaredType container) → p.Has i → own.index < fuel →
      i.index < fuel → m.refType container fuel own i p = some (i, p) := by
  have hp : p.Sound := h.sound hsize
  refine ⟨fun s s' i fuel hs hs' hi hfuel hargs => ⟨?_, ?_⟩, ?_, ?_,
    fun _ _ _ ht => Model.refType_ownRef ht, ?_⟩
  · obtain ⟨j, q, hj⟩ := s.apply_returns hp.closed hi hfuel p .refl
    exact ⟨j, q, hj, fun hq => (PoolSubst.apply_leads fuel hp hi hs j q hj hq).2.2.1⟩
  · obtain ⟨t, q, ht⟩ := PoolSubst.andThen_returns s' hp.closed hs hargs p .refl
    exact ⟨t, q, ht, fun hq => (PoolSubst.andThen_leads hp hs hs' fuel t q ht hq).2.2.1⟩
  · intro s₁ s₂ s₃ i j k k' q r r₃ r' f₁ f₂ f₃ f₄ hs₁ hs₂ hi hj hk hs₃ hk' hr'
    exact PoolSubst.apply_andThen hp hs₁ hs₂ hi hj hk hs₃ hk' hr'
  · exact fun s i fuel hs hi hfuel => hs.apply hp hi hfuel
  · intro m M container own i fuel hlike hown hi hfuel hfueli
    exact PooledModel.refType_own hp hsize hlike hown hi hfuel hfueli

/-- In `nested`: the parameter `T`, the type `D<T>` of the class seen from inside,
the class `E` inside it, and a class without parameters. -/
def nestedPool : TypePool :=
  let p := (new.param ⟨10⟩).2
  let p := (p.nominal ⟨24⟩ [⟨2⟩]).2
  let p := (p.qualified ⟨3⟩ ⟨26⟩ []).2
  (p.nominal ⟨0⟩ []).2

theorem nestedPool_reached : PoolRun knownOp new nestedPool := by
  let p := (new.param ⟨10⟩).2
  let q := (p.nominal ⟨24⟩ [⟨2⟩]).2
  let r := (q.qualified ⟨3⟩ ⟨26⟩ []).2
  have hparam : (PoolOp.param ⟨10⟩).Step new (some ⟨2⟩) p := ⟨0, rfl⟩
  have hown : (PoolOp.nominal ⟨24⟩ [⟨2⟩]).Step p (some ⟨3⟩) q := ⟨0, rfl⟩
  have hinner : (PoolOp.qualified ⟨3⟩ ⟨26⟩ []).Step q (some ⟨4⟩) r := ⟨0, rfl⟩
  have hclass : (PoolOp.nominal ⟨0⟩ []).Step r (some ⟨5⟩) nestedPool := ⟨0, rfl⟩
  refine .step (.step (.step (.step .start ?_ hparam) ?_ hown) ?_ hinner) ?_ hclass
  · rintro j ⟨⟩
  · intro j hj
    obtain rfl := List.mem_singleton.mp hj
    decide
  · rintro j (rfl | hj)
    · decide
    · contradiction
  · rintro j ⟨⟩

/-- The declarations and type parameters of `nested`. -/
def nestedQueries : PooledModel where
  decl d := ⟨(Model.nested.decl d).typeParams, []⟩
  param a := ⟨(Model.nested.param a).variance, [], (Model.nested.param a).sequenced⟩

/-- The pool after `D<T>` was substituted for `T` in `D<T>.E`. -/
def nestedOnce : TypePool := ((nestedPool.nominal ⟨24⟩ [⟨3⟩]).2.qualified ⟨6⟩ ⟨26⟩ []).2

/-- The pool after the class was substituted for the `T` in what came of it. -/
def nestedTwice : TypePool :=
  (((nestedOnce.nominal ⟨24⟩ [⟨5⟩]).2.nominal ⟨24⟩ [⟨8⟩]).2.qualified ⟨9⟩ ⟨26⟩ []).2

theorem nested_runs :
    PoolSubst.apply [(⟨10⟩, ⟨3⟩)] 9 ⟨4⟩ nestedPool = some (⟨7⟩, nestedOnce) ∧
      PoolSubst.apply [(⟨10⟩, ⟨5⟩)] 9 ⟨7⟩ nestedOnce = some (⟨10⟩, nestedTwice) ∧
      PoolSubst.andThen [(⟨10⟩, ⟨3⟩)] [(⟨10⟩, ⟨5⟩)] 9 nestedTwice =
        some ([(⟨10⟩, ⟨8⟩), (⟨10⟩, ⟨5⟩)], nestedTwice) :=
  ⟨rfl, rfl, rfl⟩

/-- Substituting `D<T>` for `T` in `D<T>.E`, and then a class for `T`, gives what
substituting `D<T>` with that class gives; and `x` seen from inside `D` has the
type `T`. -/
theorem nestedPool_acts :
    PoolRun knownOp new nestedPool ∧
    (∀ fuel k q, PoolSubst.apply [(⟨10⟩, ⟨8⟩), (⟨10⟩, ⟨5⟩)] fuel ⟨4⟩ nestedTwice = some (k, q) →
      q.size ≤ TypeIdx.count → k = ⟨10⟩) ∧
    PoolSubst.apply [(⟨10⟩, ⟨2⟩)] 9 ⟨4⟩ nestedPool = some (⟨4⟩, nestedPool) ∧
    Model.nested.refType (Model.nested.ownRef ⟨25⟩) = .param ⟨10⟩ ∧
    nestedQueries.refType ⟨24⟩ 9 ⟨3⟩ ⟨2⟩ nestedPool = some (⟨2⟩, nestedPool) := by
  have hsize : nestedPool.size ≤ TypeIdx.count := by decide
  have hclosed : nestedPool.Closed := (nestedPool_reached.sound hsize).closed
  obtain ⟨-, hcompose, hidentity, hmember, hown⟩ := substitution_acts nestedPool_reached hsize
  obtain ⟨hj, hk, hs₃⟩ := nested_runs
  have hwithin : ∀ j, nestedPool.Has j → PoolSubst.Within [(⟨10⟩, j)] nestedPool := by
    intro j hj e he
    rw [List.mem_singleton.mp he]
    exact hj
  have hparam : nestedPool.ty ⟨2⟩ = .param ⟨10⟩ := hclosed.ty_eq (by decide)
  have hdeclared : nestedPool.Reads ⟨3⟩ (Model.nested.declaredType ⟨24⟩) := by
    refine ⟨by decide, (hclosed.ty_eq (by decide)).trans ?_⟩
    change Ty.nominal ⟨24⟩ [nestedPool.ty ⟨2⟩] none none = _
    rw [hparam]
    rfl
  refine ⟨nestedPool_reached, fun fuel k q hk' hq => ?_, ?_, ?_, ?_⟩
  · exact hcompose _ _ _ _ _ _ _ _ _ _ _ 9 9 9 fuel (hwithin _ (by decide))
      (hwithin _ (by decide)) (by decide) hj hk hs₃ hk' hq
  · refine hidentity _ _ _ (fun e he => ?_) (by decide) (by decide)
    rw [List.mem_singleton.mp he]
    rfl
  · exact hmember _ _ _ rfl
  · exact hown nestedQueries Model.nested ⟨24⟩ ⟨3⟩ ⟨2⟩ 9
      ⟨fun _ => rfl, fun _ => rfl, fun _ => rfl⟩ hdeclared (by decide) (by decide) (by decide)

end TreeLowering
