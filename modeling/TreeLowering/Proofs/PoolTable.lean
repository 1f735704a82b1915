import TreeLowering.Model.Pooled
set_option autoImplicit false

/-!
# Proofs: the tables of a pool

A pool grows by nodes that it does not store yet, one at a time, and every
computation that builds types makes it grow.  Growing leaves each position its
node, and as long as there are enough positions it keeps the two tables inverse
to each other: a node is found at the position it is stored at, and only there.
-/

namespace TreeLowering

theorem TypeIdx.index_next {n : Nat} (h : n < TypeIdx.count) : (TypeIdx.next n).index = n :=
  Nat.mod_eq_of_lt h

namespace TypePool

variable {p q r : TypePool} {i j : TypeIdx} {n m : TypeNode}

/-- A node is stored at the position. -/
def Has (p : TypePool) (i : TypeIdx) : Prop := i.index < p.size

instance (p : TypePool) (i : TypeIdx) : Decidable (p.Has i) :=
  inferInstanceAs (Decidable (i.index < p.size))

/-- Each table says what the other one says. -/
def Inverse (p : TypePool) : Prop :=
  ∀ n i, p.find? n = some i ↔ p.nodes[i.index]? = some n

/-! ## Adding a node -/

theorem find?_add (p : TypePool) (n m : TypeNode) :
    (p.add n).find? m = if m = n then some (.next p.size) else p.find? m :=
  Assoc.lookup_set n m (TypeIdx.next p.size) p.positions

theorem getElem?_add (p : TypePool) (n : TypeNode) (k : Nat) :
    (p.add n).nodes[k]? = if k = p.size then some n else p.nodes[k]? :=
  Array.getElem?_push

theorem size_add (p : TypePool) (n : TypeNode) : (p.add n).size = p.size + 1 :=
  Array.size_push n

theorem getElem?_of_has (h : p.Has i) : p.nodes[i.index]? = some (p.node i) := by
  have hat : p.nodes[i.index]? = some p.nodes[i.index] := Array.getElem?_eq_getElem h
  unfold node
  rw [hat]
  rfl

theorem has_of_getElem? (h : p.nodes[i.index]? = some n) : p.Has i ∧ p.node i = n := by
  constructor
  · obtain ⟨hlt, _⟩ := Array.getElem?_eq_some_iff.mp h
    exact hlt
  · unfold node
    rw [h]
    rfl

theorem Inverse.has (h : p.Inverse) (hn : p.find? n = some i) : p.Has i ∧ p.node i = n :=
  has_of_getElem? ((h n i).mp hn)

theorem Inverse.find?_node (h : p.Inverse) (hi : p.Has i) : p.find? (p.node i) = some i :=
  (h (p.node i) i).mpr (getElem?_of_has hi)

theorem Inverse.add (h : p.Inverse) (hn : p.find? n = none) (hsize : p.size < TypeIdx.count) :
    (p.add n).Inverse := by
  intro m i
  have hnext : (TypeIdx.next p.size).index = p.size := TypeIdx.index_next hsize
  rw [find?_add, getElem?_add]
  by_cases hi : i.index = p.size
  · rw [if_pos hi]
    -- nothing is stored at the next position yet, so only the new node is found there
    have hfree : p.find? m ≠ some i := by
      intro hm
      obtain ⟨hlt, -⟩ := h.has hm
      exact absurd hi (Nat.ne_of_lt hlt)
    have hpos : TypeIdx.next p.size = i := by
      cases i
      exact congrArg TypeIdx.mk (hnext.trans hi.symm)
    constructor
    · intro hm
      split at hm
      · next heq => rw [heq]
      · exact absurd hm hfree
    · intro hm
      rw [if_pos (Option.some.inj hm).symm, hpos]
  · rw [if_neg hi]
    constructor
    · intro hm
      split at hm
      · exact absurd (Option.some.inj hm ▸ hnext) hi
      · exact (h m i).mp hm
    · intro hm
      have hfound : p.find? m = some i := (h m i).mpr hm
      rw [if_neg (fun heq => by rw [heq, hn] at hfound; cases hfound), hfound]

/-! ## Growing -/

/-- `q` comes out of `p` by storing nodes that are new. -/
inductive Grows (p : TypePool) : TypePool → Prop where
  | refl : Grows p p
  | add {q : TypePool} {n : TypeNode} : Grows p q → q.find? n = none → Grows p (q.add n)

theorem Grows.trans (h : Grows p q) (hr : Grows q r) : Grows p r := by
  induction hr with
  | refl => exact h
  | add _ hn ih => exact .add ih hn

theorem Grows.size_le (h : Grows p q) : p.size ≤ q.size := by
  induction h with
  | refl => exact Nat.le_refl _
  | add _ _ ih =>
    rw [size_add]
    exact Nat.le_succ_of_le ih

theorem Grows.has (h : Grows p q) (hi : p.Has i) : q.Has i :=
  Nat.lt_of_lt_of_le hi h.size_le

theorem Grows.node (h : Grows p q) (hi : p.Has i) : q.node i = p.node i := by
  induction h with
  | refl => rfl
  | @add q n hq _ ih =>
    have hne : i.index ≠ q.size := Nat.ne_of_lt (hq.has hi)
    rw [← ih]
    unfold TypePool.node
    rw [getElem?_add, if_neg hne]

theorem Grows.inverse (h : Grows p q) (hp : p.Inverse) (hsize : q.size ≤ TypeIdx.count) :
    q.Inverse := by
  induction h with
  | refl => exact hp
  | add _ hn ih =>
    rw [size_add] at hsize
    exact (ih (Nat.le_of_lt hsize)).add hn hsize

theorem grows_intern (p : TypePool) (n : TypeNode) : Grows p (p.intern n).2 := by
  unfold intern
  split
  · exact .refl
  · next hn => exact .add .refl hn

theorem intern_of_find? (h : p.find? n = some i) : p.intern n = (i, p) := by
  unfold intern
  rw [h]

/-- What is interned is stored at the position handed out. -/
theorem Inverse.getElem?_intern (h : p.Inverse) (hsize : (p.intern n).2.size ≤ TypeIdx.count) :
    (p.intern n).2.nodes[(p.intern n).1.index]? = some n := by
  have hq : (p.intern n).2.Inverse := (grows_intern p n).inverse h hsize
  refine (hq n _).mp ?_
  unfold intern
  split
  · next hn => exact hn
  · rw [find?_add, if_pos rfl]

theorem Inverse.has_intern (h : p.Inverse) (hsize : (p.intern n).2.size ≤ TypeIdx.count) :
    (p.intern n).2.Has (p.intern n).1 :=
  (has_of_getElem? (h.getElem?_intern hsize)).1

theorem Inverse.node_intern (h : p.Inverse) (hsize : (p.intern n).2.size ≤ TypeIdx.count) :
    (p.intern n).2.node (p.intern n).1 = n :=
  (has_of_getElem? (h.getElem?_intern hsize)).2

theorem Inverse.intern_node (h : p.Inverse) (hi : p.Has i) : p.intern (p.node i) = (i, p) :=
  intern_of_find? (h.find?_node hi)

theorem Inverse.node_inj (h : p.Inverse) (hi : p.Has i) (hj : p.Has j)
    (heq : p.node i = p.node j) : i = j := by
  have hfound : some i = some j := by rw [← h.find?_node hi, heq, h.find?_node hj]
  exact Option.some.inj hfound

theorem size_intern_le (p : TypePool) (n : TypeNode) : (p.intern n).2.size ≤ p.size + 1 := by
  unfold intern
  split
  · exact Nat.le_succ _
  · exact Nat.le_of_eq (size_add p n)

/-! ## The first two nodes -/

theorem inverse_empty : empty.Inverse := by
  intro n i
  constructor
  · intro h
    cases h
  · intro h
    cases h

theorem inverse_new : new.Inverse := by
  have hgrows : Grows empty new := (grows_intern empty .error).trans (grows_intern _ .bottom)
  exact hgrows.inverse inverse_empty (by decide)

theorem Grows.has_error (h : Grows new p) : p.Has .error := h.has (by decide)

theorem Grows.has_bottom (h : Grows new p) : p.Has .bottom := h.has (by decide)

theorem Grows.node_error (h : Grows new p) : p.node .error = .error := h.node (by decide)

theorem Grows.node_bottom (h : Grows new p) : p.node .bottom = .bottom := h.node (by decide)

end TypePool

/-! ## Computations make pools grow -/

namespace Pooled

open TypePool

variable {α β : Type} {p q r : TypePool}

theorem run_pure {a b : α} : (pure a : Pooled α) p = some (b, q) ↔ b = a ∧ q = p := by
  constructor
  · intro h
    cases h
    exact ⟨rfl, rfl⟩
  · rintro ⟨rfl, rfl⟩
    rfl

theorem run_bind {x : Pooled α} {f : α → Pooled β} {b : β} :
    (x >>= f) p = some (b, r) ↔ ∃ a q, x p = some (a, q) ∧ f a q = some (b, r) := by
  have hrun : (x >>= f) p = (x p).bind (fun out => f out.1 out.2) := rfl
  rw [hrun, Option.bind_eq_some_iff]
  exact Prod.exists

theorem run_map {x : Pooled α} {f : α → β} {b : β} :
    (f <$> x) p = some (b, q) ↔ ∃ a, x p = some (a, q) ∧ b = f a := by
  rw [map_eq_pure_bind, run_bind]
  constructor
  · rintro ⟨a, q', hx, hpure⟩
    obtain ⟨rfl, rfl⟩ := run_pure.mp hpure
    exact ⟨a, hx, rfl⟩
  · rintro ⟨a, hx, rfl⟩
    exact ⟨a, q, hx, run_pure.mpr ⟨rfl, rfl⟩⟩

/-- Whatever pool the computation starts from, the pool grows. -/
def Interns (x : Pooled α) : Prop := ∀ p a q, x p = some (a, q) → Grows p q

namespace Interns

theorem pure (a : α) : Interns (Pure.pure a) := by
  intro p b q h
  obtain ⟨-, rfl⟩ := run_pure.mp h
  exact .refl

theorem bind {x : Pooled α} {f : α → Pooled β} (hx : Interns x) (hf : ∀ a, Interns (f a)) :
    Interns (x >>= f) := by
  intro p b r h
  obtain ⟨a, q, hq, hr⟩ := run_bind.mp h
  exact (hx p a q hq).trans (hf a q b r hr)

theorem map {x : Pooled α} {f : α → β} (hx : Interns x) : Interns (f <$> x) := by
  intro p b q h
  obtain ⟨a, hq, -⟩ := run_map.mp h
  exact hx p a q hq

theorem reading (f : TypePool → α) : Interns (reading f) := by
  intro p a q h
  cases h
  exact .refl

theorem building {f : TypePool → α × TypePool} (hf : ∀ p, Grows p (f p).2) :
    Interns (building f) := by
  intro p a q h
  obtain rfl : (f p).2 = q := congrArg Prod.snd (Option.some.inj h)
  exact hf p

theorem tooDeep : Interns (tooDeep : Pooled α) := by
  intro p a q h
  cases h

theorem each {f : TypeIdx → Pooled TypeIdx} (hf : ∀ i, Interns (f i)) :
    ∀ is, Interns (each f is)
  | [] => pure []
  | i :: is => (hf i).bind fun _ => (each hf is).bind fun _ => pure _

theorem ifAny {f : TypeIdx → Pooled TypeIdx} (hf : ∀ i, Interns (f i)) :
    ∀ o, Interns (ifAny f o)
  | none => pure none
  | some i => (hf i).map

theorem firstOf {f : TypeIdx → Pooled (Option TypeIdx)} (hf : ∀ i, Interns (f i)) :
    ∀ is, Interns (firstOf f is)
  | [] => pure none
  | i :: is => by
    refine (hf i).bind fun found => ?_
    cases found with
    | none => exact firstOf hf is
    | some found => exact pure _

theorem allOf {f : TypeIdx → Pooled (Option TypeIdx)} (hf : ∀ i, Interns (f i)) :
    ∀ is, Interns (allOf f is)
  | [] => pure _
  | i :: is => by
    refine (hf i).bind fun found => ?_
    cases found with
    | none => exact pure _
    | some found => exact (allOf hf is).map

end Interns

end Pooled

namespace TypePool

theorem grows_join (p : TypePool) (cases : List TypeIdx) : Grows p (p.join cases).2 := by
  unfold join
  split
  · exact .refl
  · exact .refl
  · exact grows_intern p _

theorem grows_meet (p : TypePool) (bounds : List TypeIdx) : Grows p (p.meet bounds).2 := by
  unfold meet
  split
  · exact .refl
  · exact .refl
  · exact grows_intern p _

end TypePool

open TypePool Pooled

theorem PoolSubst.apply_interns (s : PoolSubst) : ∀ fuel i, Interns (s.apply fuel i)
  | 0, _ => .tooDeep
  | fuel + 1, i => by
    have hpart : ∀ j, Interns (s.apply fuel j) := apply_interns s fuel
    unfold PoolSubst.apply
    split
    · exact .pure i
    · refine (Interns.reading _).bind fun n => ?_
      cases n with
      | nominal d as o h =>
        refine (Interns.each hpart as).bind fun args => ?_
        refine (Interns.ifAny hpart o).bind fun outer => ?_
        exact .building fun p => grows_intern p _
      | union cases =>
        refine (Interns.each hpart cases).bind fun _ => ?_
        exact .building fun p => grows_intern p _
      | inter bounds =>
        refine (Interns.each hpart bounds).bind fun _ => ?_
        exact .building fun p => grows_intern p _
      | param _ => exact .pure _
      | bottom => exact .pure _
      | error => exact .pure _

namespace PooledModel

variable (m : PooledModel) (target : DeclId)

theorem substitution_interns : ∀ fuel i, Interns (m.substitution fuel i)
  | 0, _ => .tooDeep
  | fuel + 1, i => by
    unfold substitution
    refine (Interns.reading _).bind fun n => ?_
    cases n with
    | nominal d as o h =>
      cases o with
      | none => exact .pure _
      | some outer => exact (substitution_interns fuel outer).map
    | union _ => exact .pure _
    | inter _ => exact .pure _
    | param _ => exact .pure _
    | bottom => exact .pure _
    | error => exact .pure _

theorem joinArgument_interns (a : ParamId) (column : List TypeIdx) :
    Interns (m.joinArgument a column) := by
  unfold joinArgument
  split
  · exact (Interns.building fun p => grows_join p _).map
  · exact (Interns.building fun p => grows_meet p _).map
  · split
    · exact .pure _
    · exact .pure _

theorem joinArguments_interns :
    ∀ (as : List ParamId) (rows : List (List TypeIdx)), Interns (m.joinArguments as rows)
  | [], _ => .pure _
  | a :: as, rows => by
    unfold joinArguments
    refine (m.joinArgument_interns a _).bind fun joined => ?_
    cases joined with
    | none => exact .pure _
    | some i => exact (joinArguments_interns as _).map

theorem bottomInstance_interns : Interns (m.bottomInstance target) :=
  .building fun p => grows_intern p _

theorem joinInstances_interns (found : List TypeIdx) : Interns (m.joinInstances target found) := by
  unfold joinInstances
  split
  · exact (m.bottomInstance_interns target).map
  · exact .pure _
  · refine (Interns.reading _).bind fun n => ?_
    split
    · refine (Interns.reading _).bind fun rows => ?_
      refine (m.joinArguments_interns _ rows).bind fun joined => ?_
      cases joined with
      | none => exact .pure _
      | some joined => exact (Interns.building fun p => grows_intern p _).map
    · exact .pure _

theorem supertype_interns : ∀ fuel i, Interns (m.supertype target fuel i)
  | 0, _ => .tooDeep
  | fuel + 1, i => by
    have hup : ∀ j, Interns (m.supertype target fuel j) := supertype_interns fuel
    unfold supertype
    refine (Interns.reading _).bind fun n => ?_
    cases n with
    | nominal d as o h =>
      dsimp only
      split
      · exact .pure _
      · refine (m.substitution_interns fuel i).bind fun s => ?_
        exact .firstOf (fun t => (s.apply_interns fuel t).bind hup) _
    | union cases =>
      refine (Interns.allOf hup _).bind fun found => ?_
      cases found with
      | none => exact .pure _
      | some found => exact m.joinInstances_interns target found
    | inter bounds => exact .firstOf hup bounds
    | param a => exact .firstOf hup _
    | bottom => exact (m.bottomInstance_interns target).map
    | error => exact .pure _

end PooledModel

end TreeLowering
