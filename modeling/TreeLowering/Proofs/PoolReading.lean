import TreeLowering.Proofs.PoolTable
import TreeLowering.Types.Substitution
set_option autoImplicit false

/-!
# Proofs: the types in a pool

A pool is closed when each node refers to smaller positions only.  Then every
position has a type to read back, and two positions have one type only if they
are the same, so the computations that compare positions compare types.  What is
joined, met or substituted in a pool reads back as what is joined, met or
substituted among types.
-/

namespace TreeLowering

namespace TypeNode

/-- The type that a node stands for, where `f` gives the types of its parts. -/
def read (f : TypeIdx → Ty) : TypeNode → Ty
  | nominal d as o h => .nominal d (as.map f) (o.map f) h
  | union cases => .union (cases.map f)
  | inter bounds => .inter (bounds.map f)
  | param a => .param a
  | bottom => .bottom
  | error => .error

variable {f g : TypeIdx → Ty} {n m : TypeNode}

theorem read_congr (h : ∀ j ∈ n.parts, f j = g j) : n.read f = n.read g := by
  cases n with
  | nominal d as o hint =>
    have hargs : as.map f = as.map g :=
      List.map_congr_left fun j hj => h j (List.mem_append_right _ hj)
    have houter : o.map f = o.map g := by
      cases o with
      | none => rfl
      | some j => exact congrArg some (h j List.mem_cons_self)
    simp only [read, hargs, houter]
  | union cases => exact congrArg Ty.union (List.map_congr_left h)
  | inter bounds => exact congrArg Ty.inter (List.map_congr_left h)
  | param a => rfl
  | bottom => rfl
  | error => rfl

theorem map_inj_on {is js : List TypeIdx} (h : ∀ i ∈ is, ∀ j ∈ js, f i = f j → i = j)
    (heq : is.map f = js.map f) : is = js := by
  induction is generalizing js with
  | nil =>
    symm
    exact List.map_eq_nil_iff.mp heq.symm
  | cons i is ih =>
    obtain ⟨j, js, rfl, hij, hrest⟩ := List.map_eq_cons_iff.mp heq.symm
    rw [h i List.mem_cons_self j List.mem_cons_self hij.symm]
    refine congrArg (j :: ·) (ih (fun a ha b hb => ?_) hrest.symm)
    exact h a (List.mem_cons_of_mem _ ha) b (List.mem_cons_of_mem _ hb)

/-- A node is determined by its type when its parts are. -/
theorem read_inj (h : ∀ i ∈ n.parts, ∀ j ∈ m.parts, f i = f j → i = j)
    (heq : n.read f = m.read f) : n = m := by
  cases n <;> cases m <;> try cases heq
  case nominal.nominal d as o hint d' as' o' hint' =>
    obtain ⟨rfl, hargs, houter, rfl⟩ := Ty.nominal.inj heq
    have hlist : as = as' := map_inj_on
      (fun i hi j hj => h i (List.mem_append_right _ hi) j (List.mem_append_right _ hj)) hargs
    have hopt : o = o' := by
      cases o <;> cases o' <;> try cases houter
      case none.none => rfl
      case some.some i j =>
        rw [h i List.mem_cons_self j List.mem_cons_self (Option.some.inj houter)]
    rw [hlist, hopt]
  case union.union cases cases' =>
    exact congrArg union (map_inj_on h (Ty.union.inj heq))
  case inter.inter bounds bounds' =>
    exact congrArg inter (map_inj_on h (Ty.inter.inj heq))
  case param.param => rfl
  case bottom.bottom => rfl
  case error.error => rfl

end TypeNode

namespace TypePool

variable {p q r : TypePool} {i j : TypeIdx} {n : TypeNode} {t : Ty}

/-! ## Closed pools -/

/-- Each node refers to smaller positions. -/
def Closed (p : TypePool) : Prop := ∀ i, p.Has i → ∀ j ∈ (p.node i).parts, j.index < i.index

theorem Closed.has (h : p.Closed) (hi : p.Has i) (hj : j ∈ (p.node i).parts) : p.Has j :=
  Nat.lt_trans (h i hi j hj) hi

theorem Closed.add (h : p.Closed) (hparts : ∀ j ∈ n.parts, p.Has j) : (p.add n).Closed := by
  intro i hi j hj
  have hnode : (p.add n).node i = if i.index = p.size then n else p.node i := by
    unfold node
    rw [getElem?_add]
    split <;> rfl
  rw [hnode] at hj
  split at hj
  · next hnew =>
    rw [hnew]
    exact hparts j hj
  · next hold =>
    have hlt : i.index < p.size + 1 := by
      rw [← size_add p n]
      exact hi
    exact h i (Nat.lt_of_le_of_ne (Nat.le_of_lt_succ hlt) hold) j hj

theorem Closed.intern (h : p.Closed) (hparts : ∀ j ∈ n.parts, p.Has j) :
    (p.intern n).2.Closed := by
  unfold TypePool.intern
  split
  · exact h
  · exact h.add hparts

theorem closed_empty : empty.Closed := by
  intro i hi
  exact absurd hi (Nat.not_lt_zero _)

/-- The position of one node is a part of the node at another one. -/
def PartOf (p : TypePool) (j i : TypeIdx) : Prop := p.Has i ∧ j ∈ (p.node i).parts

/-- So a recursion over the parts of a type comes to an end. -/
theorem Closed.wellFounded (h : p.Closed) : WellFounded p.PartOf := by
  refine Subrelation.wf (fun {j i} hpart => ?_) (measure TypeIdx.index).wf
  exact h i hpart.1 j hpart.2

/-! ## Reading a type back -/

/-- The type at a position.  A part at no smaller position, which a closed pool
has none of, reads as the erroneous type. -/
def ty (p : TypePool) (i : TypeIdx) : Ty :=
  (p.node i).read fun j => if _h : j.index < i.index then ty p j else .error
termination_by i.index

theorem Closed.ty_eq (h : p.Closed) (hi : p.Has i) : p.ty i = (p.node i).read p.ty := by
  rw [ty]
  refine TypeNode.read_congr fun j hj => ?_
  rw [dif_pos (h i hi j hj)]

theorem Grows.ty (h : Grows p q) (hi : p.Has i) : q.ty i = p.ty i := by
  -- both sides read the same node, and its parts at smaller positions
  induction hk : i.index using Nat.strongRecOn generalizing i with
  | ind k ih =>
    subst hk
    rw [TypePool.ty, TypePool.ty, h.node hi]
    refine TypeNode.read_congr fun j _ => ?_
    by_cases hj : j.index < i.index
    · rw [dif_pos hj, dif_pos hj, ih j.index hj (Nat.lt_trans hj hi) rfl]
    · rw [dif_neg hj, dif_neg hj]

/-- A pool that stores well-formed types only, after the first two nodes. -/
structure Sound (p : TypePool) : Prop where
  inverse : p.Inverse
  closed : p.Closed
  grown : Grows new p

theorem sound_new : new.Sound where
  inverse := inverse_new
  closed := (closed_empty.intern (by simp [TypeNode.parts])).intern (by simp [TypeNode.parts])
  grown := .refl

namespace Sound

variable (h : p.Sound)
include h

/-- Positions are equal exactly when their types are. -/
theorem ty_inj (hi : p.Has i) (hj : p.Has j) (heq : p.ty i = p.ty j) : i = j := by
  induction hk : i.index using Nat.strongRecOn generalizing i j with
  | ind k ih =>
    subst hk
    rw [h.closed.ty_eq hi, h.closed.ty_eq hj] at heq
    have hnode : p.node i = p.node j := by
      refine TypeNode.read_inj (fun a ha b hb hab => ?_) heq
      exact ih a.index (h.closed i hi a ha) (h.closed.has hi ha) (h.closed.has hj hb) hab rfl
    exact h.inverse.node_inj hi hj hnode

theorem ty_bottom : p.ty .bottom = .bottom := by
  rw [ty, h.grown.node_bottom]
  rfl

theorem ty_error : p.ty .error = .error := by
  rw [ty, h.grown.node_error]
  rfl

theorem ty_eq_bottom_iff (hi : p.Has i) : p.ty i = .bottom ↔ i = .bottom := by
  constructor
  · intro heq
    exact h.ty_inj hi h.grown.has_bottom (heq.trans h.ty_bottom.symm)
  · rintro rfl
    exact h.ty_bottom

end Sound

/-- The position holds the type. -/
def Reads (p : TypePool) (i : TypeIdx) (t : Ty) : Prop := p.Has i ∧ p.ty i = t

/-- The positions hold the types, one each. -/
def ReadsAll (p : TypePool) (is : List TypeIdx) (ts : List Ty) : Prop :=
  (∀ i ∈ is, p.Has i) ∧ is.map p.ty = ts

theorem Reads.grows (h : p.Reads i t) (hq : Grows p q) : q.Reads i t :=
  ⟨hq.has h.1, (hq.ty h.1).trans h.2⟩

theorem Grows.map_ty (h : Grows p q) {is : List TypeIdx} (his : ∀ i ∈ is, p.Has i) :
    is.map q.ty = is.map p.ty :=
  List.map_congr_left fun i hi => h.ty (his i hi)

theorem ReadsAll.grows {is : List TypeIdx} {ts : List Ty} (h : p.ReadsAll is ts)
    (hq : Grows p q) : q.ReadsAll is ts :=
  ⟨fun i hi => hq.has (h.1 i hi), (hq.map_ty h.1).trans h.2⟩

/-! ## Building types -/

section Building

variable (h : p.Sound)
include h

theorem Sound.intern (hparts : ∀ j ∈ n.parts, p.Has j)
    (hsize : (p.intern n).2.size ≤ TypeIdx.count) :
    (p.intern n).2.Sound ∧ (p.intern n).2.Reads (p.intern n).1 (n.read p.ty) := by
  have hgrows : Grows p (p.intern n).2 := grows_intern p n
  have hsound : (p.intern n).2.Sound :=
    ⟨hgrows.inverse h.inverse hsize, h.closed.intern hparts, h.grown.trans hgrows⟩
  have hhas : (p.intern n).2.Has (p.intern n).1 := h.inverse.has_intern hsize
  refine ⟨hsound, hhas, ?_⟩
  rw [hsound.closed.ty_eq hhas, h.inverse.node_intern hsize]
  exact TypeNode.read_congr fun j hj => hgrows.ty (hparts j hj)

theorem map_distinct {is : List TypeIdx} (his : ∀ i ∈ is, p.Has i) :
    (distinct is).map p.ty = Ty.distinct (is.map p.ty) := by
  -- the positions kept so far are at all times those of the types kept so far
  have hfold : ∀ kept : List TypeIdx, (∀ i ∈ kept, p.Has i) →
      (is.foldl (fun kept i => if i ∈ kept then kept else kept ++ [i]) kept).map p.ty =
        (is.map p.ty).foldl (fun kept t => if t ∈ kept then kept else kept ++ [t])
          (kept.map p.ty) := by
    induction is with
    | nil => exact fun kept _ => rfl
    | cons i is ih =>
      intro kept hkept
      have hi : p.Has i := his i List.mem_cons_self
      have hrest : ∀ j ∈ is, p.Has j := fun j hj => his j (List.mem_cons_of_mem _ hj)
      have hmem : p.ty i ∈ kept.map p.ty ↔ i ∈ kept := by
        constructor
        · intro hm
          obtain ⟨j, hj, heq⟩ := List.mem_map.mp hm
          exact h.ty_inj (hkept j hj) hi heq ▸ hj
        · exact List.mem_map_of_mem
      rw [List.map_cons, List.foldl_cons, List.foldl_cons]
      by_cases hseen : i ∈ kept
      · rw [if_pos hseen, if_pos (hmem.mpr hseen)]
        exact ih hrest kept hkept
      · rw [if_neg hseen, if_neg (fun hm => hseen (hmem.mp hm)), ih hrest, List.map_append]
        · rfl
        · intro j hj
          rcases List.mem_append.mp hj with hj | hj
          · exact hkept j hj
          · obtain rfl := List.mem_singleton.mp hj
            exact hi
  exact hfold [] (by simp)

theorem map_filter_ne_bottom {is : List TypeIdx} (his : ∀ i ∈ is, p.Has i) :
    (is.filter (· ≠ .bottom)).map p.ty = (is.map p.ty).filter (· ≠ .bottom) := by
  rw [List.filter_map]
  refine congrArg (List.map p.ty) (List.filter_congr fun i hi => ?_)
  simp only [Function.comp_apply, ne_eq, h.ty_eq_bottom_iff (his i hi)]

theorem Sound.join {is : List TypeIdx} (his : ∀ i ∈ is, p.Has i)
    (hsize : (p.join is).2.size ≤ TypeIdx.count) :
    (p.join is).2.Sound ∧ (p.join is).2.Reads (p.join is).1 (Ty.join (is.map p.ty)) := by
  have hfilter : ∀ i ∈ is.filter (· ≠ .bottom), p.Has i := fun i hi =>
    his i (List.mem_filter.mp hi).1
  have hkept : ∀ i ∈ distinct (is.filter (· ≠ .bottom)), p.Has i := fun i hi =>
    hfilter i (mem_distinct.mp hi)
  unfold Ty.join
  rw [← map_filter_ne_bottom h his, ← map_distinct h hfilter]
  unfold TypePool.join at hsize ⊢
  generalize distinct (is.filter (· ≠ .bottom)) = kept at hkept hsize ⊢
  cases kept with
  | nil => exact ⟨h, h.grown.has_bottom, h.ty_bottom⟩
  | cons i rest =>
    cases rest with
    | nil => exact ⟨h, hkept i List.mem_cons_self, rfl⟩
    | cons j rest => exact h.intern hkept hsize

theorem Sound.meet {is : List TypeIdx} (his : ∀ i ∈ is, p.Has i)
    (hsize : (p.meet is).2.size ≤ TypeIdx.count) :
    (p.meet is).2.Sound ∧ (p.meet is).2.Reads (p.meet is).1 (Ty.meet (is.map p.ty)) := by
  have hkept : ∀ i ∈ distinct is, p.Has i := fun i hi => his i (mem_distinct.mp hi)
  unfold Ty.meet
  rw [← map_distinct h his]
  unfold TypePool.meet at hsize ⊢
  generalize distinct is = kept at hkept hsize ⊢
  cases kept with
  | nil => exact ⟨h, h.grown.has_error, h.ty_error⟩
  | cons i rest =>
    cases rest with
    | nil => exact ⟨h, hkept i List.mem_cons_self, rfl⟩
    | cons j rest => exact h.intern hkept hsize

end Building

end TypePool
end TreeLowering
