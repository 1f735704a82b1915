import TreeLowering.Model.Supertype
import TreeLowering.Proofs.PoolReading
set_option autoImplicit false

/-!
# Proofs: queries over a pool read back

Substituting in a pool and climbing to a supertype build what substitution and
climbing give among types: the position that they answer with holds the type
that the model answers with.  Without a model to compare with, the answer is
still a position of the pool, and the pool stays a sound one.
-/

namespace TreeLowering

open TypePool Pooled

namespace Pooled

variable {α β : Type} {p q r : TypePool}

/-- As long as there are enough positions, the computation leads to a pool that
satisfies the invariant and to an answer as described. -/
def Leads (Inv : TypePool → Prop) (x : Pooled α) (p : TypePool) (φ : α → TypePool → Prop) :
    Prop :=
  ∀ a q, x p = some (a, q) → q.size ≤ TypeIdx.count → Grows p q ∧ Inv q ∧ φ a q

namespace Leads

variable {Inv : TypePool → Prop} {φ : α → TypePool → Prop} {ψ : β → TypePool → Prop}

theorem pure {a : α} (hp : Inv p) (h : φ a p) : Leads Inv (Pure.pure a) p φ := by
  intro b q hrun _
  obtain ⟨rfl, rfl⟩ := run_pure.mp hrun
  exact ⟨.refl, hp, h⟩

theorem tooDeep : Leads Inv tooDeep p φ := by
  intro a q hrun
  cases hrun

/-- What follows may rely on what the computation led to.  It only grows the
pool, so there were enough positions for the computation as well. -/
theorem bind {x : Pooled α} {f : α → Pooled β} (hx : Leads Inv x p φ)
    (hf : ∀ a, Interns (f a)) (h : ∀ a q, Grows p q → Inv q → φ a q → Leads Inv (f a) q ψ) :
    Leads Inv (x >>= f) p ψ := by
  intro b r hrun hsize
  obtain ⟨a, q, hq, hr⟩ := run_bind.mp hrun
  have hgrows : Grows q r := hf a q b r hr
  obtain ⟨hpq, hsound, ha⟩ := hx a q hq (Nat.le_trans hgrows.size_le hsize)
  obtain ⟨-, hr, hb⟩ := h a q hpq hsound ha b r hr hsize
  exact ⟨hpq.trans hgrows, hr, hb⟩

theorem map {x : Pooled α} {f : α → β} (hx : Leads Inv x p φ)
    (h : ∀ a q, Grows p q → φ a q → ψ (f a) q) : Leads Inv (f <$> x) p ψ := by
  intro b q hrun hsize
  obtain ⟨a, hq, rfl⟩ := run_map.mp hrun
  obtain ⟨hgrows, hsound, ha⟩ := hx a q hq hsize
  exact ⟨hgrows, hsound, h a q hgrows ha⟩

theorem mono {x : Pooled α} {φ' : α → TypePool → Prop} (hx : Leads Inv x p φ)
    (h : ∀ a q, Grows p q → φ a q → φ' a q) : Leads Inv x p φ' := by
  intro a q hrun hsize
  obtain ⟨hgrows, hsound, ha⟩ := hx a q hrun hsize
  exact ⟨hgrows, hsound, h a q hgrows ha⟩

theorem building {f : TypePool → α × TypePool} (hf : Grows p (f p).2)
    (h : (f p).2.size ≤ TypeIdx.count → Inv (f p).2 ∧ φ (f p).1 (f p).2) :
    Leads Inv (building f) p φ := by
  intro a q hrun hsize
  have hout : f p = (a, q) := Option.some.inj hrun
  rw [hout] at hf h
  exact ⟨hf, h hsize⟩

theorem found {x : Pooled TypeIdx} (hx : Leads Inv x p (fun j q => q.Has j)) :
    Leads Inv (some <$> x) p (fun found q => ∀ j ∈ found, q.Has j) := by
  refine hx.map fun j q _ hj k hk => ?_
  obtain rfl := Option.some.inj hk
  exact hj

/-- What is read first is read from the pool as it is. -/
theorem read {f : α → Pooled β} {g : TypePool → α} (h : Leads Inv (f (g p)) p ψ) :
    Leads Inv (Pooled.reading g >>= f) p ψ := by
  intro b r hrun
  obtain ⟨a, q, hread, hr⟩ := run_bind.mp hrun
  cases hread
  exact h b r hr

theorem intern {n : TypeNode} (hp : p.Sound) (hparts : ∀ j ∈ n.parts, p.Has j) :
    Leads Sound (Pooled.building (·.intern n)) p (fun j q => q.Reads j (n.read p.ty)) :=
  building (grows_intern p n) (hp.intern hparts)

theorem join {is : List TypeIdx} (hp : p.Sound) (his : ∀ i ∈ is, p.Has i) :
    Leads Sound (Pooled.building (·.join is)) p (fun j q => q.Reads j (Ty.join (is.map p.ty))) :=
  building (grows_join p is) (hp.join his)

theorem meet {is : List TypeIdx} (hp : p.Sound) (his : ∀ i ∈ is, p.Has i) :
    Leads Sound (Pooled.building (·.meet is)) p (fun j q => q.Reads j (Ty.meet (is.map p.ty))) :=
  building (grows_meet p is) (hp.meet his)

theorem each {f : TypeIdx → Pooled TypeIdx} {g : TypeIdx → Ty} (hf : ∀ i, Interns (f i)) :
    ∀ {p : TypePool} {is : List TypeIdx}, Inv p →
      (∀ q, Grows p q → Inv q → ∀ i ∈ is, Leads Inv (f i) q (fun j r => r.Reads j (g i))) →
      Leads Inv (each f is) p (fun js r => r.ReadsAll js (is.map g))
  | p, [], hp, _ => pure hp ⟨by simp, rfl⟩
  | p, i :: is, hp, h => by
    refine (h p .refl hp i List.mem_cons_self).bind
      (fun _ => (Interns.each hf is).bind fun _ => .pure _) fun j q hq hsound hj => ?_
    have hrest : ∀ r, Grows q r → Inv r → ∀ a ∈ is,
        Leads Inv (f a) r (fun b s => s.Reads b (g a)) := fun r hr hr' a ha =>
      h r (hq.trans hr) hr' a (List.mem_cons_of_mem _ ha)
    refine (each hf hsound hrest).bind (fun _ => .pure _)
      fun js r hr hsound' hjs => ?_
    obtain ⟨hhas, hty⟩ := hj.grows hr
    refine pure hsound' ⟨List.forall_mem_cons.mpr ⟨hhas, hjs.1⟩, ?_⟩
    rw [List.map_cons, List.map_cons, hty, hjs.2]

end Leads

end Pooled

/-! ## Substitution -/

theorem TypeNode.subst_read {n : TypeNode} (hn : n.tag ≠ "param") (f : TypeIdx → Ty)
    (s : Subst) : (n.read f).subst s = n.read (fun j => (f j).subst s) := by
  unfold Ty.subst
  cases n with
  | nominal d as o h =>
    simp [TypeNode.read, Ty.replace, Ty.replaceAll_eq_map, Ty.replaceOuter_eq_map,
      Function.comp_def]
  | union cases => simp [TypeNode.read, Ty.replace, Ty.replaceAll_eq_map, Function.comp_def]
  | inter bounds => simp [TypeNode.read, Ty.replace, Ty.replaceAll_eq_map, Function.comp_def]
  | param a => exact absurd rfl hn
  | bottom => simp [TypeNode.read, Ty.replace]
  | error => simp [TypeNode.read, Ty.replace]

namespace PoolSubst

variable {p q : TypePool} {i : TypeIdx} {s : PoolSubst}

/-- The arguments are positions of the pool. -/
def Within (s : PoolSubst) (p : TypePool) : Prop := ∀ e ∈ s, p.Has e.2

/-- The arguments as types. -/
def read (s : PoolSubst) (p : TypePool) : Subst := ⟨s.map fun e => (e.1, p.ty e.2)⟩

theorem Within.grows (h : s.Within p) (hq : Grows p q) : s.Within q :=
  fun e he => hq.has (h e he)

theorem Within.read_grows (h : s.Within p) (hq : Grows p q) : s.read q = s.read p := by
  refine congrArg Subst.mk (List.map_congr_left fun e he => ?_)
  rw [hq.ty (h e he)]

theorem get?_read (s : PoolSubst) (p : TypePool) (a : ParamId) :
    (s.read p).get? a = (s.lookup a).map p.ty := by
  unfold Subst.get? read
  induction s with
  | nil => rfl
  | cons e s ih =>
    rw [List.map_cons, List.lookup_cons, List.lookup_cons]
    split
    · rfl
    · exact ih

theorem subst_param (s : PoolSubst) (p : TypePool) (a : ParamId) :
    (Ty.param a).subst (s.read p) = ((s.lookup a).map p.ty).getD (.param a) := by
  rw [Ty.subst, Ty.replace, get?_read]

theorem exists_of_lookup {j : TypeIdx} {a : ParamId} (h : s.lookup a = some j) :
    ∃ e ∈ s, j = e.2 := by
  induction s with
  | nil => cases h
  | cons e s ih =>
    rw [List.lookup_cons] at h
    split at h
    · exact ⟨e, List.mem_cons_self, (Option.some.inj h).symm⟩
    · obtain ⟨e', he, heq⟩ := ih h
      exact ⟨e', List.mem_cons_of_mem _ he, heq⟩

theorem Within.lookup {j : TypeIdx} {a : ParamId} (h : s.Within p) (hj : s.lookup a = some j) :
    p.Has j := by
  obtain ⟨e, he, rfl⟩ := exists_of_lookup hj
  exact h e he

theorem ifAny_leads {f : TypeIdx → Pooled TypeIdx} {g : TypeIdx → Ty} {o : Option TypeIdx}
    (hp : p.Sound) (h : ∀ j ∈ o, Leads Sound (f j) p (fun k r => r.Reads k (g j))) :
    Leads Sound (ifAny f o) p (fun k r => (∀ j ∈ k, r.Has j) ∧ k.map r.ty = o.map g) := by
  cases o with
  | none => exact Leads.pure hp ⟨by simp, rfl⟩
  | some j =>
    refine (h j rfl).map fun k r _ hk => ⟨fun b hb => ?_, congrArg some hk.2⟩
    obtain rfl := Option.some.inj hb
    exact hk.1

/-- A node whose parts hold the substituted types of another's is built into the
substituted type. -/
theorem rebuild_leads {n new : TypeNode} (hn : n.tag ≠ "param") (hq : q.Sound)
    (hparts : ∀ j ∈ new.parts, q.Has j)
    (hread : new.read q.ty = n.read fun j => (p.ty j).subst (s.read p)) :
    Leads Sound (Pooled.building (·.intern new)) q
      (fun j r => r.Reads j ((n.read p.ty).subst (s.read p))) := by
  rw [TypeNode.subst_read hn, ← hread]
  exact Leads.intern hq hparts

/-- Replacing parameters in a pool is substitution. -/
theorem apply_leads : ∀ fuel {p : TypePool} {i : TypeIdx} {s : PoolSubst}, p.Sound → p.Has i →
    s.Within p →
      Leads Sound (s.apply fuel i) p (fun j q => q.Reads j ((p.ty i).subst (s.read p)))
  | 0, _, _, _, _, _, _ => Leads.tooDeep
  | fuel + 1, p, i, s, hp, hi, hs => by
    have hinterns : ∀ j, Interns (s.apply fuel j) := s.apply_interns fuel
    -- a part is replaced in a grown pool, where it holds the type it has held
    have hpart : ∀ q, Grows p q → q.Sound → ∀ j ∈ (p.node i).parts,
        Leads Sound (s.apply fuel j) q (fun k r => r.Reads k ((p.ty j).subst (s.read p))) := by
      intro q hq hsound j hj
      have hhas : p.Has j := hp.closed.has hi hj
      have hrec := apply_leads fuel hsound (hq.has hhas) (hs.grows hq)
      rw [hq.ty hhas, hs.read_grows hq] at hrec
      exact hrec
    unfold PoolSubst.apply
    split
    · next hempty =>
      obtain rfl := List.isEmpty_iff.mp hempty
      exact Leads.pure hp ⟨hi, (Ty.subst_empty _).symm⟩
    · have hty : p.ty i = (p.node i).read p.ty := hp.closed.ty_eq hi
      refine Leads.read ?_
      generalize p.node i = n at hpart hty
      rw [hty]
      cases n with
      | param a =>
        refine Leads.pure hp ?_
        rw [TypeNode.read, subst_param]
        cases ha : s.lookup a with
        | none => exact ⟨hi, hty⟩
        | some j => exact ⟨hs.lookup ha, rfl⟩
      | nominal d as o h =>
        refine (Leads.each hinterns hp fun q hq hsound j hj =>
          hpart q hq hsound j (List.mem_append_right _ hj)).bind
          (fun _ => (Interns.ifAny hinterns o).bind fun _ => .building fun _ => grows_intern _ _)
          fun args q hq hsound hargs => ?_
        refine (ifAny_leads hsound fun j hj => hpart q hq hsound j ?_).bind
          (fun _ => .building fun _ => grows_intern _ _)
          fun outer r hr hsound' houter => ?_
        · exact List.mem_append_left _ (Option.mem_toList.mpr hj)
        · obtain ⟨hhas, hread⟩ := hargs.grows hr
          refine rebuild_leads (by simp [TypeNode.tag]) hsound' (fun j hj => ?_) ?_
          · rcases List.mem_append.mp hj with hj | hj
            · exact houter.1 j (Option.mem_toList.mp hj)
            · exact hhas j hj
          · rw [TypeNode.read, hread, houter.2]
            rfl
      | union cases =>
        refine (Leads.each hinterns hp hpart).bind
          (fun _ => .building fun _ => grows_intern _ _) fun replaced q hq hsound hreplaced => ?_
        exact rebuild_leads (by simp [TypeNode.tag]) hsound hreplaced.1
          (congrArg Ty.union hreplaced.2)
      | inter bounds =>
        refine (Leads.each hinterns hp hpart).bind
          (fun _ => .building fun _ => grows_intern _ _) fun replaced q hq hsound hreplaced => ?_
        exact rebuild_leads (by simp [TypeNode.tag]) hsound hreplaced.1
          (congrArg Ty.inter hreplaced.2)
      | bottom => exact Leads.pure hp ⟨hi, hty⟩
      | error => exact Leads.pure hp ⟨hi, hty⟩

end PoolSubst
/-! ## Models over a pool -/

/-- The answer is a position of the pool.  Where `C` holds, it holds the
expected type, and there is none where none is expected. -/
def TypePool.Answers (q : TypePool) (C : Prop) (found : Option TypeIdx) (expected : Option Ty) :
    Prop :=
  (∀ j ∈ found, q.Has j) ∧ (C → found.map q.ty = expected)

/-- The same for an answer of several positions. -/
def TypePool.AnswersAll (q : TypePool) (C : Prop) (found : Option (List TypeIdx))
    (expected : Option (List Ty)) : Prop :=
  (∀ js ∈ found, ∀ j ∈ js, q.Has j) ∧ (C → found.map (·.map q.ty) = expected)

namespace TypePool

variable {q r : TypePool} {C : Prop} {j : TypeIdx} {found : Option TypeIdx}
  {expected other : Option Ty}

theorem Answers.of_eq (h : q.Answers C found expected) (heq : C → expected = other) :
    q.Answers C found other :=
  ⟨h.1, fun hC => (h.2 hC).trans (heq hC)⟩

theorem answers_none (h : C → expected = none) : q.Answers C none expected :=
  ⟨fun _ hk => (Option.not_mem_none _ hk).elim, fun hC => (h hC).symm⟩

theorem answers_some (hj : q.Has j) (h : C → expected = some (q.ty j)) :
    q.Answers C (some j) expected := by
  refine ⟨fun k hk => ?_, fun hC => (h hC).symm⟩
  obtain rfl := Option.some.inj hk
  exact hj

theorem Reads.answers {t : Ty} (h : q.Reads j t) : q.Answers C (some j) (some t) :=
  answers_some h.1 fun _ => congrArg some h.2.symm

theorem answersAll_none {expected : Option (List Ty)} (h : C → expected = none) :
    q.AnswersAll C none expected :=
  ⟨fun _ hk => (Option.not_mem_none _ hk).elim, fun hC => (h hC).symm⟩

theorem AnswersAll.of_eq {found : Option (List TypeIdx)} {expected other : Option (List Ty)}
    (h : q.AnswersAll C found expected) (heq : C → expected = other) :
    q.AnswersAll C found other :=
  ⟨h.1, fun hC => (h.2 hC).trans (heq hC)⟩

theorem answersAll_nil : q.AnswersAll C (some []) (some []) := by
  refine ⟨fun js hjs j hj => ?_, fun _ => rfl⟩
  obtain rfl := Option.some.inj hjs
  cases hj

/-- One more position before the others of an answer that came later. -/
theorem AnswersAll.cons {rest : Option (List TypeIdx)} {expected : Option (List Ty)}
    (h : r.AnswersAll C rest expected) (hj : q.Has j) (hr : Grows q r) :
    r.AnswersAll C (rest.map (j :: ·)) (expected.map (q.ty j :: ·)) := by
  constructor
  · intro js hjs
    obtain ⟨ks, hks, rfl⟩ := Option.map_eq_some_iff.mp hjs
    exact List.forall_mem_cons.mpr ⟨hr.has hj, h.1 ks hks⟩
  · intro hC
    rw [← h.2 hC]
    cases rest with
    | none => rfl
    | some ks => exact congrArg (fun t => some (t :: ks.map r.ty)) (hr.ty hj)

end TypePool

namespace PooledModel

variable {m : PooledModel} {p q : TypePool} {i : TypeIdx} {M : Model} {C : Prop}

/-- What the declarations and type parameters refer to are positions of the
pool. -/
structure Within (m : PooledModel) (p : TypePool) : Prop where
  supertypes : ∀ d, ∀ j ∈ (m.decl d).supertypes, p.Has j
  bounds : ∀ a, ∀ j ∈ (m.param a).bounds, p.Has j

/-- The declarations and type parameters are those of `M`, their types left
aside. -/
structure Like (m : PooledModel) (M : Model) : Prop where
  typeParams : ∀ d, (M.decl d).typeParams = (m.decl d).typeParams
  variance : ∀ a, (M.param a).variance = (m.param a).variance
  sequenced : ∀ a, (M.param a).sequenced = (m.param a).sequenced

/-- With the types that the pool holds, the declarations and type parameters are
those of `M`. -/
structure Reads (m : PooledModel) (p : TypePool) (M : Model) : Prop extends m.Like M where
  supertypes : ∀ d, (M.decl d).supertypes = (m.decl d).supertypes.map p.ty
  bounds : ∀ a, (M.param a).bounds = (m.param a).bounds.map p.ty

theorem Within.grows (h : m.Within p) (hq : Grows p q) : m.Within q where
  supertypes d j hj := hq.has (h.supertypes d j hj)
  bounds a j hj := hq.has (h.bounds a j hj)

theorem Reads.grows (h : m.Reads p M) (hm : m.Within p) (hq : Grows p q) : m.Reads q M where
  toLike := h.toLike
  supertypes d := (h.supertypes d).trans (hq.map_ty (hm.supertypes d)).symm
  bounds a := (h.bounds a).trans (hq.map_ty (hm.bounds a)).symm

/-! ## Substitutions of nominal types -/

theorem read_set (s : PoolSubst) (p : TypePool) (a : ParamId) (j : TypeIdx) :
    PoolSubst.read (Assoc.set a j s) p = (s.read p).insert a (p.ty j) := by
  refine congrArg (fun es => Subst.mk ((a, p.ty j) :: es)) ?_
  exact (List.filter_map (f := fun e => (e.1, p.ty e.2)) (p := fun e => e.1 ≠ a) (l := s)).symm

theorem read_foldl_set (p : TypePool) (es : List (ParamId × TypeIdx)) (s : PoolSubst) :
    PoolSubst.read (es.foldl (fun s e => Assoc.set e.1 e.2 s) s) p =
      (s.read p).insertAll (es.map fun e => (e.1, p.ty e.2)) := by
  unfold Subst.insertAll
  induction es generalizing s with
  | nil => rfl
  | cons e es ih =>
    rw [List.foldl_cons, ih, read_set]
    rfl

theorem within_foldl_set {es : List (ParamId × TypeIdx)} {s : PoolSubst} (hs : s.Within p)
    (hes : ∀ e ∈ es, p.Has e.2) :
    PoolSubst.Within (es.foldl (fun s e => Assoc.set e.1 e.2 s) s) p := by
  induction es generalizing s with
  | nil => exact hs
  | cons e es ih =>
    obtain ⟨he, hrest⟩ := List.forall_mem_cons.mp hes
    refine ih (List.forall_mem_cons.mpr ⟨he, fun x hx => ?_⟩) hrest
    exact hs x (List.mem_filter.mp hx).1

theorem bind_within {d : DeclId} {as : List TypeIdx} {s : PoolSubst} (hs : s.Within p)
    (has : ∀ j ∈ as, p.Has j) : (m.bind d as s).Within p := by
  refine within_foldl_set hs fun e he => ?_
  exact has e.2 (List.of_mem_zip (List.mem_filter.mp he).1).2

theorem read_bind (hlike : m.Like M) (p : TypePool) (d : DeclId) (as : List TypeIdx) (o : Option Ty)
    (h : Option Hint) (s : PoolSubst) :
    (m.bind d as s).read p =
      M.bindSegment (.nominal d (as.map p.ty) o h) (s.read p) := by
  have hzip : (m.decl d).typeParams.zip (as.map p.ty) =
      ((m.decl d).typeParams.zip as).map (fun e => (e.1, p.ty e.2)) := List.zip_map_right
  simp only [bind, Model.bindSegment, read_foldl_set, hlike.typeParams, hlike.sequenced, hzip,
    List.filter_map]
  rfl

theorem substitution_nominal (M : Model) (d : DeclId) (as : List Ty) (o : Option Ty)
    (h : Option Hint) :
    M.substitution (.nominal d as o h) =
      M.bindSegment (.nominal d as o h) ((o.map M.substitution).getD .empty) := by
  cases o with
  | none => simp [Model.substitution, Ty.segments, Ty.segmentsAround]
  | some t => simp [Model.substitution, Ty.segments, Ty.segmentsAround]

theorem substitution_eq_empty {t : Ty} (M : Model) (h : t.decl? = none) :
    M.substitution t = .empty := by
  cases t with
  | nominal d as o h' => cases h
  | _ => simp [Model.substitution, Ty.segments, Model.bindSegment]

theorem substitution_leads : ∀ fuel {i : TypeIdx}, p.Sound → p.Has i → (C → m.Like M) →
    Leads Sound (m.substitution fuel i) p
      (fun s q => q = p ∧ s.Within p ∧ (C → s.read p = M.substitution (p.ty i)))
  | 0, _, _, _, _ => Leads.tooDeep
  | fuel + 1, i, hp, hi, hlike => by
    have hty : p.ty i = (p.node i).read p.ty := hp.closed.ty_eq hi
    have hparts : ∀ j ∈ (p.node i).parts, p.Has j := fun j hj => hp.closed.has hi hj
    -- a type without arguments substitutes nothing
    have hempty : (p.ty i).decl? = none → Leads Sound (Pure.pure [] : Pooled PoolSubst) p
        (fun s q => q = p ∧ s.Within p ∧ (C → s.read p = M.substitution (p.ty i))) := by
      intro hdecl
      rw [substitution_eq_empty M hdecl]
      exact Leads.pure hp ⟨rfl, fun e he => (List.not_mem_nil he).elim, fun _ => rfl⟩
    refine Leads.read ?_
    generalize p.node i = n at hty hparts
    cases n with
    | nominal d as o h =>
      have has : ∀ j ∈ as, p.Has j := fun j hj => hparts j (List.mem_append_right _ hj)
      rw [hty, TypeNode.read, substitution_nominal]
      cases o with
      | none =>
        refine Leads.pure hp ⟨rfl, bind_within (fun e he => (List.not_mem_nil he).elim) has,
          fun hC => ?_⟩
        exact read_bind (hlike hC) p d as none h []
      | some outer =>
        have houter : p.Has outer := hparts outer List.mem_cons_self
        refine (substitution_leads fuel hp houter hlike).map fun s q _ hs => ?_
        obtain ⟨rfl, hwithin, hs⟩ := hs
        refine ⟨rfl, bind_within hwithin has, fun hC => ?_⟩
        rw [read_bind (hlike hC) q d as (some (q.ty outer)) h, hs hC]
        rfl
    | union _ => exact hempty (by rw [hty]; rfl)
    | inter _ => exact hempty (by rw [hty]; rfl)
    | param _ => exact hempty (by rw [hty]; rfl)
    | bottom => exact hempty (by rw [hty]; rfl)
    | error => exact hempty (by rw [hty]; rfl)

/-! ## Joining the cases of a union -/

theorem joinArgument_leads (hp : p.Sound) (hlike : C → m.Like M) (a : ParamId)
    {column : List TypeIdx} (hcolumn : ∀ j ∈ column, p.Has j) :
    Leads Sound (m.joinArgument a column) p
      (fun found q => q.Answers C found (M.joinArgument a (column.map p.ty))) := by
  have hvariance : C → (M.param a).variance = (m.param a).variance := fun hC =>
    (hlike hC).variance a
  unfold joinArgument Model.joinArgument
  cases hv : (m.param a).variance with
  | covariant =>
    refine (Leads.join hp hcolumn).map fun j q _ hj => hj.answers.of_eq fun hC => ?_
    rw [hvariance hC, hv]
  | contravariant =>
    refine (Leads.meet hp hcolumn).map fun j q _ hj => hj.answers.of_eq fun hC => ?_
    rw [hvariance hC, hv]
  | invariant =>
    cases column with
    | nil =>
      refine Leads.pure hp (answers_none fun hC => ?_)
      rw [hvariance hC, hv]
      rfl
    | cons i is =>
      obtain ⟨hi, his⟩ := List.forall_mem_cons.mp hcolumn
      have hall : is.all (· = i) = (is.map p.ty).all (· = p.ty i) := by
        rw [Bool.eq_iff_iff, List.all_eq_true, List.all_eq_true, List.forall_mem_map]
        refine forall₂_congr fun j hj => ?_
        rw [decide_eq_true_eq, decide_eq_true_eq]
        exact ⟨congrArg p.ty, hp.ty_inj (his j hj) hi⟩
      refine Leads.pure hp ⟨fun j hj => ?_, fun hC => ?_⟩
      · split at hj
        · exact Option.some.inj hj ▸ hi
        · cases hj
      · rw [hvariance hC, hv, List.map_cons]
        dsimp only
        rw [← hall]
        split <;> rfl

theorem joinArguments_leads (hlike : C → m.Like M) :
    ∀ {p : TypePool} (as : List ParamId) {rows : List (List TypeIdx)}, p.Sound →
      (∀ row ∈ rows, ∀ j ∈ row, p.Has j) →
      Leads Sound (m.joinArguments as rows) p
        (fun found q => q.AnswersAll C found (M.joinArguments as (rows.map (·.map p.ty))))
  | p, [], rows, hp, _ => Leads.pure hp answersAll_nil
  | p, a :: as, rows, hp, hrows => by
    have hheads : ∀ j ∈ rows.filterMap List.head?, p.Has j := by
      intro j hj
      obtain ⟨row, hrow, hhead⟩ := List.mem_filterMap.mp hj
      exact hrows row hrow j (List.mem_of_mem_head? hhead)
    have hcolumn : (rows.map (·.map p.ty)).filterMap List.head? =
        (rows.filterMap List.head?).map p.ty := by
      rw [List.filterMap_map, List.map_filterMap]
      exact congrArg (List.filterMap · rows) (funext fun row => List.head?_map)
    refine (joinArgument_leads hp hlike a hheads).bind
      (fun found => ?_) fun found q hq hsound hfound => ?_
    · cases found with
      | none => exact .pure _
      | some j => exact (m.joinArguments_interns as _).map
    unfold Model.joinArguments
    rw [hcolumn]
    cases found with
    | none =>
      refine Leads.pure hsound (answersAll_none fun hC => ?_)
      rw [← hfound.2 hC]
      rfl
    | some j =>
      have hj : q.Has j := hfound.1 j rfl
      have htails : ∀ row ∈ rows.map List.tail, ∀ j ∈ row, q.Has j := by
        intro row hrow k hk
        obtain ⟨whole, hwhole, rfl⟩ := List.mem_map.mp hrow
        exact hq.has (hrows whole hwhole k (List.mem_of_mem_tail hk))
      have hrest : (rows.map List.tail).map (·.map q.ty) =
          (rows.map (·.map p.ty)).map List.tail := by
        rw [List.map_map, List.map_map]
        refine List.map_congr_left fun row hrow => ?_
        rw [Function.comp_apply, Function.comp_apply, ← List.map_tail]
        exact hq.map_ty fun k hk => hrows row hrow k (List.mem_of_mem_tail hk)
      refine (joinArguments_leads hlike as hsound htails).map fun rest r hr hjoined => ?_
      rw [hrest] at hjoined
      refine (hjoined.cons hj hr).of_eq fun hC => ?_
      rw [← hfound.2 hC]
      cases M.joinArguments as ((rows.map (·.map p.ty)).map List.tail) <;> rfl

theorem bottomInstance_leads (hp : p.Sound) (hlike : C → m.Like M) (target : DeclId) :
    Leads Sound (some <$> m.bottomInstance target) p
      (fun found q => q.Answers C found (some (M.bottomInstance target))) := by
  have hparts : ∀ j ∈ List.replicate (m.decl target).typeParams.length TypeIdx.bottom, p.Has j := by
    intro j hj
    rw [List.eq_of_mem_replicate hj]
    exact hp.grown.has_bottom
  refine (Leads.intern (n := .nominal target _ none none) hp hparts).map fun j q _ hj => ?_
  refine hj.answers.of_eq fun hC => congrArg some ?_
  rw [Model.bottomInstance, (hlike hC).typeParams, TypeNode.read, List.map_replicate,
    hp.ty_bottom]
  rfl

theorem args_ty (hp : p.Sound) (hi : p.Has i) : (p.ty i).args = (p.args i).map p.ty := by
  rw [hp.closed.ty_eq hi]
  unfold TypePool.args
  cases p.node i <;> rfl

theorem has_of_mem_args (hp : p.Sound) (hi : p.Has i) : ∀ j ∈ p.args i, p.Has j := by
  intro j hj
  refine hp.closed.has hi ?_
  unfold TypePool.args at hj
  split at hj
  · next hnode =>
    rw [hnode]
    exact List.mem_append_right _ hj
  · cases hj

theorem joinInstances_leads (hp : p.Sound) (hlike : C → m.Like M) (target : DeclId)
    {found : List TypeIdx} (hfound : ∀ j ∈ found, p.Has j) :
    Leads Sound (m.joinInstances target found) p
      (fun joined q => q.Answers C joined (M.joinInstances target (found.map p.ty))) := by
  cases found with
  | nil => exact bottomInstance_leads hp hlike target
  | cons first rest =>
    have hfirst : p.Has first := hfound first List.mem_cons_self
    cases rest with
    | nil =>
      exact Leads.pure hp (answers_some hfirst fun _ => rfl)
    | cons second rest =>
      have hty : p.ty first = (p.node first).read p.ty := hp.closed.ty_eq hfirst
      have hparts : ∀ j ∈ (p.node first).parts, p.Has j := fun j hj => hp.closed.has hfirst hj
      have hrows : ∀ row ∈ (first :: second :: rest).map p.args, ∀ j ∈ row, p.Has j := by
        intro row hrow
        obtain ⟨i, hi, rfl⟩ := List.mem_map.mp hrow
        exact has_of_mem_args hp (hfound i hi)
      have hargs : ((first :: second :: rest).map p.ty).map Ty.args =
          ((first :: second :: rest).map p.args).map (·.map p.ty) := by
        rw [List.map_map, List.map_map]
        exact List.map_congr_left fun i hi => args_ty hp (hfound i hi)
      unfold joinInstances Model.joinInstances
      refine Leads.read ?_
      simp only [List.map_cons] at hargs hrows ⊢
      rw [hargs, hty]
      generalize p.node first = n at hparts
      cases n with
      | nominal d as o h =>
        dsimp only [TypeNode.read]
        have houter : ∀ j ∈ o, p.Has j := fun j hj =>
          hparts j (List.mem_append_left _ (Option.mem_toList.mpr hj))
        refine Leads.read ((joinArguments_leads hlike _ hp hrows).bind (fun joined => ?_)
          fun joined q hq hsound hjoined => ?_)
        · cases joined with
          | none => exact .pure _
          | some joined => exact (Interns.building fun p => grows_intern p _).map
        obtain ⟨hhas, hread⟩ := hjoined
        simp only [List.map_cons] at hread
        cases joined with
        | none =>
          refine Leads.pure hsound (answers_none fun hC => ?_)
          rw [(hlike hC).typeParams, ← hread hC]
          rfl
        | some js =>
          refine (Leads.intern (n := .nominal target js o none) hsound fun j hj => ?_).map
            fun j r _ hj => hj.answers.of_eq fun hC => ?_
          · rcases List.mem_append.mp hj with hj | hj
            · exact hq.has (houter j (Option.mem_toList.mp hj))
            · exact hhas js rfl j hj
          · have hqual : o.map q.ty = o.map p.ty := Option.map_congr fun k hk => hq.ty (houter k hk)
            rw [(hlike hC).typeParams, ← hread hC, TypeNode.read, hqual]
            rfl
      | union _ => exact Leads.pure hp (answers_none fun _ => rfl)
      | inter _ => exact Leads.pure hp (answers_none fun _ => rfl)
      | param _ => exact Leads.pure hp (answers_none fun _ => rfl)
      | bottom => exact Leads.pure hp (answers_none fun _ => rfl)
      | error => exact Leads.pure hp (answers_none fun _ => rfl)

/-! ## Climbing -/

theorem firstOf_leads {Inv : TypePool → Prop} {f : TypeIdx → Pooled (Option TypeIdx)}
    {g : TypeIdx → Option Ty} (hf : ∀ i, Interns (f i)) :
    ∀ {p : TypePool} {is : List TypeIdx}, Inv p →
      (∀ q, Grows p q → Inv q → ∀ i ∈ is,
        Leads Inv (f i) q (fun found r => r.Answers C found (g i))) →
      Leads Inv (firstOf f is) p (fun found r => r.Answers C found (is.findSome? g))
  | p, [], hp, _ => Leads.pure hp (answers_none fun _ => rfl)
  | p, i :: is, hp, h => by
    refine (h p .refl hp i List.mem_cons_self).bind (fun found => ?_)
      fun found q hq hsound hfound => ?_
    · cases found with
      | none => exact .firstOf hf is
      | some j => exact .pure _
    rw [List.findSome?_cons]
    cases found with
    | none =>
      refine (firstOf_leads hf hsound fun r hr hr' j hj =>
        h r (hq.trans hr) hr' j (List.mem_cons_of_mem _ hj)).mono fun found r _ hrest => ?_
      refine hrest.of_eq fun hC => ?_
      rw [← hfound.2 hC]
      rfl
    | some j =>
      refine Leads.pure hsound (hfound.of_eq fun hC => ?_)
      rw [← hfound.2 hC]
      rfl

theorem allOf_leads {Inv : TypePool → Prop} {f : TypeIdx → Pooled (Option TypeIdx)}
    {g : TypeIdx → Option Ty} (hf : ∀ i, Interns (f i)) :
    ∀ {p : TypePool} {is : List TypeIdx}, Inv p →
      (∀ q, Grows p q → Inv q → ∀ i ∈ is,
        Leads Inv (f i) q (fun found r => r.Answers C found (g i))) →
      Leads Inv (allOf f is) p (fun found r => r.AnswersAll C found (is.mapM g))
  | p, [], hp, _ => Leads.pure hp answersAll_nil
  | p, i :: is, hp, h => by
    refine (h p .refl hp i List.mem_cons_self).bind (fun found => ?_)
      fun found q hq hsound hfound => ?_
    · cases found with
      | none => exact .pure _
      | some j => exact (Interns.allOf hf is).map
    rw [List.mapM_cons]
    cases found with
    | none =>
      refine Leads.pure hsound (answersAll_none fun hC => ?_)
      rw [← hfound.2 hC]
      rfl
    | some j =>
      have hj : q.Has j := hfound.1 j rfl
      refine (allOf_leads hf hsound fun r hr hr' k hk =>
        h r (hq.trans hr) hr' k (List.mem_cons_of_mem _ hk)).map fun rest r hr hrest => ?_
      refine (hrest.cons hj hr).of_eq fun hC => ?_
      rw [← hfound.2 hC]
      cases is.mapM g <;> rfl

theorem climbAny_eq_findSome? (M : Model) (up : Ty → Option Ty) (target : DeclId) (ts : List Ty) :
    M.climbAny up target ts = ts.findSome? (M.climb up target) := by
  induction ts with
  | nil => rw [Model.climbAny, List.findSome?_nil]
  | cons t ts ih =>
    rw [Model.climbAny, List.findSome?_cons, ih]
    cases M.climb up target t <;> rfl

theorem climbEach_eq_mapM (M : Model) (up : Ty → Option Ty) (target : DeclId) (ts : List Ty) :
    M.climbEach up target ts = (ts.filter (· ≠ .bottom)).mapM (M.climb up target) := by
  induction ts with
  | nil => rw [Model.climbEach, List.filter_nil, List.mapM_nil]; rfl
  | cons t ts ih =>
    rw [Model.climbEach]
    by_cases hbottom : t = .bottom
    · rw [if_pos hbottom, ih, List.filter_cons_of_neg (by simpa using hbottom)]
    · rw [if_neg hbottom, ih, List.filter_cons_of_pos (by simpa using hbottom), List.mapM_cons]
      cases M.climb up target t with
      | none => rfl
      | some found =>
        cases (ts.filter (· ≠ .bottom)).mapM (M.climb up target) with
        | none => rfl
        | some rest => rfl

theorem mapM_map {g : Ty → Option Ty} (f : TypeIdx → Ty) (is : List TypeIdx) :
    (is.map f).mapM g = is.mapM (fun i => g (f i)) := by
  induction is with
  | nil => rfl
  | cons i is ih => rw [List.map_cons, List.mapM_cons, List.mapM_cons, ih]

/-- Several types that were all climbed from are joined as they are among types. -/
theorem joinAll_leads (hlike : C → m.Like M) (target : DeclId) {found : Option (List TypeIdx)}
    {expected : Option (List Ty)} (hp : p.Sound) (hfound : p.AnswersAll C found expected) :
    Leads Sound (match found with
      | none => Pure.pure none
      | some found => m.joinInstances target found) p
      (fun joined q => q.Answers C joined (expected.bind (M.joinInstances target))) := by
  cases found with
  | none =>
    refine Leads.pure hp (answers_none fun hC => ?_)
    rw [← hfound.2 hC]
    rfl
  | some found =>
    refine (joinInstances_leads hp hlike target (hfound.1 found rfl)).mono
      fun joined q _ hjoined => hjoined.of_eq fun hC => ?_
    rw [← hfound.2 hC]
    rfl

/-- From the pool on, climbing with this fuel is climbing among types within the
limit. -/
def Climbs (m : PooledModel) (M : Model) (C : Prop) (target : DeclId) (fuel limit : Nat)
    (p : TypePool) : Prop :=
  ∀ q j, Grows p q → q.Sound → q.Has j →
    Leads Sound (m.supertype target fuel j) q
      (fun found r => r.Answers C found (M.supertypeWithin target limit (q.ty j)))

namespace Climbs

variable {target : DeclId} {fuel limit : Nat} {is : List TypeIdx}

/-- Each of several known types is climbed from in a pool that the others have
grown. -/
theorem member (h : Climbs m M C target fuel limit p) (his : ∀ j ∈ is, p.Has j) :
    ∀ q, Grows p q → q.Sound → ∀ j ∈ is, Leads Sound (m.supertype target fuel j) q
      (fun found r => r.Answers C found (M.supertypeWithin target limit (p.ty j))) := by
  intro q hq hsound j hj
  rw [← hq.ty (his j hj)]
  exact h q j hq hsound (hq.has (his j hj))

theorem firstOf (h : Climbs m M C target fuel limit p) (hp : p.Sound) (his : ∀ j ∈ is, p.Has j) :
    Leads Sound (firstOf (m.supertype target fuel) is) p (fun found q =>
      q.Answers C found ((is.map p.ty).findSome? (M.supertypeWithin target limit))) := by
  rw [List.findSome?_map]
  exact firstOf_leads (m.supertype_interns target fuel) hp (h.member his)

theorem allOf (h : Climbs m M C target fuel limit p) (hp : p.Sound) (his : ∀ j ∈ is, p.Has j) :
    Leads Sound (allOf (m.supertype target fuel) is) p (fun found q =>
      q.AnswersAll C found ((is.map p.ty).mapM (M.supertypeWithin target limit))) := by
  rw [mapM_map]
  exact allOf_leads (m.supertype_interns target fuel) hp (h.member his)

/-- The declared supertypes of a nominal type are climbed from with its own
arguments put in. -/
theorem declared (h : Climbs m M C target fuel limit p) (hp : p.Sound) (hi : p.Has i)
    (hm : m.Within p) (hread : C → m.Reads p M) (d : DeclId) :
    Leads Sound (do
        let s ← m.substitution fuel i
        Pooled.firstOf (fun t => do m.supertype target fuel (← s.apply fuel t))
          (m.decl d).supertypes) p
      (fun found q => q.Answers C found ((M.decl d).supertypes.findSome? fun t =>
        M.supertypeWithin target limit (t.subst (M.substitution (p.ty i))))) := by
  have hinterns : ∀ j, Interns (m.supertype target fuel j) := m.supertype_interns target fuel
  have hstep : ∀ (s : PoolSubst) t, Interns (s.apply fuel t >>= m.supertype target fuel) :=
    fun s t => (s.apply_interns fuel t).bind hinterns
  refine (substitution_leads fuel hp hi fun hC => (hread hC).toLike).bind
    (fun s => .firstOf (hstep s) _) fun s q hq hsound hs => ?_
  obtain ⟨rfl, hwithin, hs⟩ := hs
  have hclimb : ∀ r, Grows q r → r.Sound → ∀ t ∈ (m.decl d).supertypes,
      Leads Sound (s.apply fuel t >>= m.supertype target fuel) r (fun found r' =>
        r'.Answers C found (M.supertypeWithin target limit ((q.ty t).subst (s.read q)))) := by
    intro r hr hsound t ht
    have hhas : q.Has t := hm.supertypes d t ht
    refine (PoolSubst.apply_leads fuel hsound (hr.has hhas) (hwithin.grows hr)).bind hinterns
      fun j r' hr' hsound' hj => ?_
    rw [hr.ty hhas, hwithin.read_grows hr] at hj
    rw [← hj.2]
    exact h r' j (hr.trans hr') hsound' hj.1
  refine (firstOf_leads (hstep s) hsound hclimb).mono fun found r _ hfound =>
    hfound.of_eq fun hC => ?_
  rw [← hs hC, (hread hC).supertypes, List.findSome?_map]
  rfl

end Climbs

/-- Climbing in a pool is climbing among types, through no more declarations and
bounds than it goes deep. -/
theorem supertype_leads (target : DeclId) :
    ∀ {p : TypePool} {i : TypeIdx} (fuel limit : Nat), fuel ≤ limit → p.Sound → p.Has i →
      m.Within p → (C → m.Reads p M) →
      Leads Sound (m.supertype target fuel i) p
        (fun found q => q.Answers C found (M.supertypeWithin target limit (p.ty i)))
  | _, _, 0, _, _, _, _, _, _ => Leads.tooDeep
  | p, i, fuel + 1, 0, hfuel, _, _, _, _ => absurd hfuel (Nat.not_succ_le_zero fuel)
  | p, i, fuel + 1, limit + 1, hfuel, hp, hi, hm, hread => by
    have hless : fuel ≤ limit := Nat.le_of_succ_le_succ hfuel
    have hup : ∀ limit, fuel ≤ limit → Climbs m M C target fuel limit p :=
      fun limit hlimit q j hq hsound hj => supertype_leads target fuel limit hlimit hsound hj
        (hm.grows hq) fun hC => (hread hC).grows hm hq
    have hty : p.ty i = (p.node i).read p.ty := hp.closed.ty_eq hi
    have hparts : ∀ j ∈ (p.node i).parts, p.Has j := fun j hj => hp.closed.has hi hj
    have hwhole : M.supertypeWithin target (limit + 1) =
        M.climb (M.supertypeWithin target limit) target :=
      funext (M.supertypeWithin_succ target limit)
    rw [Model.supertypeWithin_succ]
    unfold supertype
    refine Leads.read ?_
    generalize p.node i = n at hty hparts
    cases n with
    | nominal d as o h =>
      dsimp only
      split
      · next htarget =>
        refine Leads.pure hp (answers_some hi fun _ => ?_)
        rw [hty, TypeNode.read, Model.climb, if_pos htarget]
      · next htarget =>
        refine ((hup limit hless).declared hp hi hm hread d).mono
          fun found q _ hfound => hfound.of_eq fun _ => ?_
        rw [hty, TypeNode.read, Model.climb, if_neg htarget]
    | param a =>
      refine ((hup limit hless).firstOf hp (hm.bounds a)).mono
        fun found q _ hfound => hfound.of_eq fun hC => ?_
      rw [hty, TypeNode.read, Model.climb, (hread hC).bounds]
    -- the parts of a composite type are climbed from within the limit of the whole
    | inter bounds =>
      have hbounds : ∀ j ∈ bounds, p.Has j := hparts
      refine ((hup (limit + 1) (Nat.le_succ_of_le hless)).firstOf hp hbounds).mono
        fun found q _ hfound => hfound.of_eq fun hC => ?_
      rw [hty, TypeNode.read, Model.climb, climbAny_eq_findSome?, hwhole]
    | union cases =>
      have hcases : ∀ j ∈ cases, p.Has j := hparts
      have hpresent : ∀ j ∈ cases.filter (· ≠ .bottom), p.Has j := fun j hj =>
        hcases j (List.mem_filter.mp hj).1
      refine ((hup (limit + 1) (Nat.le_succ_of_le hless)).allOf hp hpresent).bind
        (fun found => ?_) fun found q hq hsound hfound => ?_
      · cases found with
        | none => exact .pure _
        | some found => exact m.joinInstances_interns target found
      refine (joinAll_leads (fun hC => (hread hC).toLike) target hsound hfound).mono
        fun joined r _ hjoined => hjoined.of_eq fun hC => ?_
      rw [hty, TypeNode.read, Model.climb, climbEach_eq_mapM, ← map_filter_ne_bottom hp hcases,
        hwhole]
    | bottom =>
      rw [hty, TypeNode.read, Model.climb]
      exact bottomInstance_leads hp (fun hC => (hread hC).toLike) target
    | error =>
      rw [hty, TypeNode.read, Model.climb]
      exact Leads.pure hp (answers_none fun _ => rfl)

end PooledModel

end TreeLowering
