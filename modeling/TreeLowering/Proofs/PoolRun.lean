import TreeLowering.Proofs.PoolQuery
set_option autoImplicit false

/-!
# Proofs: runs of a pool

A run takes a pool from the new one through any operations, each with whatever
positions it is given.  In every pool that a run reaches, equal positions are
equal nodes, and what is stored at a position stays there for the rest of the
run.  Where operations are given only positions of the pool, nodes refer to
smaller positions, and the positions stand for types.
-/

namespace TreeLowering

open TypePool Pooled

/-- An operation that may build types. -/
inductive PoolOp where
  | intern (node : TypeNode)
  | nominal (decl : DeclId) (args : List TypeIdx)
  | qualified (outer : TypeIdx) (decl : DeclId) (args : List TypeIdx)
  | withHint (type : TypeIdx) (hint : Hint)
  | withoutHint (type : TypeIdx)
  | union (cases : List TypeIdx)
  | inter (bounds : List TypeIdx)
  | param (param : ParamId)
  | join (cases : List TypeIdx)
  | meet (bounds : List TypeIdx)
  | substitute (args : PoolSubst) (type : TypeIdx)
  | supertype (model : PooledModel) (target : DeclId) (type : TypeIdx)
  deriving Inhabited

namespace PoolOp

/-- Carries the operation out, a query at most `fuel` positions deep. -/
def exec (fuel : Nat) : PoolOp → Pooled (Option TypeIdx)
  | intern n => some <$> building (·.intern n)
  | nominal d as => some <$> building (·.nominal d as)
  | qualified o d as => some <$> building (·.qualified o d as)
  | withHint i h => some <$> building (·.withHint i h)
  | withoutHint i => some <$> building (·.withoutHint i)
  | union cases => some <$> building (·.union cases)
  | inter bounds => some <$> building (·.inter bounds)
  | param a => some <$> building (·.param a)
  | join cases => some <$> building (·.join cases)
  | meet bounds => some <$> building (·.meet bounds)
  | substitute s i => some <$> s.apply fuel i
  | supertype m target i => m.supertype target fuel i

/-- The operation is given the position, by itself or in what it consults. -/
def Given : PoolOp → TypeIdx → Prop
  | intern n, j => j ∈ n.parts
  | nominal _ as, j => j ∈ as
  | qualified o _ as, j => j = o ∨ j ∈ as
  | withHint i _, j => j = i
  | withoutHint i, j => j = i
  | union cases, j => j ∈ cases
  | inter bounds, j => j ∈ bounds
  | param _, _ => False
  | join cases, j => j ∈ cases
  | meet bounds, j => j ∈ bounds
  | substitute s i, j => j = i ∨ ∃ e ∈ s, j = e.2
  | supertype m _ i, j =>
    j = i ∨ (∃ d, j ∈ (m.decl d).supertypes) ∨ ∃ a, j ∈ (m.param a).bounds

variable {p q : TypePool} {op : PoolOp}

/-- Every position that the operation is given is one of the pool. -/
def Within (op : PoolOp) (p : TypePool) : Prop := ∀ j, op.Given j → p.Has j

/-! ## What an operation does -/

/-- What comes of a pool without a query: a given position or one of the first
two, or a node that is interned, whose parts are given or those of a node at a
given position. -/
inductive Built (op : PoolOp) (p : TypePool) : TypeIdx × TypePool → Prop where
  | given {i : TypeIdx} : op.Given i → Built op p (i, p)
  | error : Built op p (.error, p)
  | bottom : Built op p (.bottom, p)
  | interned {n : TypeNode} :
    (∀ j ∈ n.parts, op.Given j ∨ ∃ i, op.Given i ∧ j ∈ (p.node i).parts) →
      Built op p (p.intern n)

theorem Built.grows {out : TypeIdx × TypePool} (h : op.Built p out) : Grows p out.2 := by
  cases h with
  | given _ => exact .refl
  | error => exact .refl
  | bottom => exact .refl
  | interned _ => exact grows_intern p _

theorem built_withHint (p : TypePool) (i : TypeIdx) (h : Hint) :
    Built (.withHint i h) p (p.withHint i h) := by
  unfold TypePool.withHint
  split
  · next hnode =>
    refine .interned fun j hj => .inr ⟨i, rfl, ?_⟩
    rw [hnode]
    exact hj
  · exact .given rfl

theorem built_withoutHint (p : TypePool) (i : TypeIdx) :
    Built (.withoutHint i) p (p.withoutHint i) := by
  unfold TypePool.withoutHint
  split
  · next hnode =>
    refine .interned fun j hj => .inr ⟨i, rfl, ?_⟩
    rw [hnode]
    exact hj
  · exact .given rfl

theorem built_join (p : TypePool) (cases : List TypeIdx) :
    Built (.join cases) p (p.join cases) := by
  have hkept : ∀ j ∈ distinct (cases.filter (· ≠ .bottom)), j ∈ cases := fun j hj =>
    (List.mem_filter.mp (mem_distinct.mp hj)).1
  unfold TypePool.join
  generalize distinct (cases.filter (· ≠ .bottom)) = kept at hkept
  split
  · exact .bottom
  · exact .given (hkept _ List.mem_cons_self)
  · exact .interned fun j hj => .inl (hkept j hj)

theorem built_meet (p : TypePool) (bounds : List TypeIdx) :
    Built (.meet bounds) p (p.meet bounds) := by
  have hkept : ∀ j ∈ distinct bounds, j ∈ bounds := fun j hj => mem_distinct.mp hj
  unfold TypePool.meet
  generalize distinct bounds = kept at hkept
  split
  · exact .error
  · exact .given (hkept _ List.mem_cons_self)
  · exact .interned fun j hj => .inl (hkept j hj)

/-- An operation builds a type, or it is one of the queries. -/
theorem exec_cases (op : PoolOp) :
    (∃ f, (∀ fuel, op.exec fuel = some <$> building f) ∧ ∀ p, op.Built p (f p)) ∨
      (∃ s i, op = substitute s i) ∨ ∃ m target i, op = supertype m target i := by
  cases op with
  | intern n => exact .inl ⟨_, fun _ => rfl, fun p => .interned fun j hj => .inl hj⟩
  | nominal d as => exact .inl ⟨_, fun _ => rfl, fun p => .interned fun j hj => .inl hj⟩
  | qualified o d as =>
    refine .inl ⟨_, fun _ => rfl, fun p => .interned fun j hj => .inl ?_⟩
    exact List.mem_cons.mp hj
  | withHint i h => exact .inl ⟨_, fun _ => rfl, fun p => built_withHint p i h⟩
  | withoutHint i => exact .inl ⟨_, fun _ => rfl, fun p => built_withoutHint p i⟩
  | union cases => exact .inl ⟨_, fun _ => rfl, fun p => .interned fun j hj => .inl hj⟩
  | inter bounds => exact .inl ⟨_, fun _ => rfl, fun p => .interned fun j hj => .inl hj⟩
  | param a =>
    refine .inl ⟨_, fun _ => rfl, fun p => .interned fun j hj => ?_⟩
    exact absurd hj List.not_mem_nil
  | join cases => exact .inl ⟨_, fun _ => rfl, fun p => built_join p cases⟩
  | meet bounds => exact .inl ⟨_, fun _ => rfl, fun p => built_meet p bounds⟩
  | substitute s i => exact .inr (.inl ⟨s, i, rfl⟩)
  | supertype m target i => exact .inr (.inr ⟨m, target, i, rfl⟩)

theorem exec_interns (fuel : Nat) (op : PoolOp) : Interns (op.exec fuel) := by
  obtain ⟨f, hexec, hbuilt⟩ | ⟨s, i, rfl⟩ | ⟨m, target, i, rfl⟩ := exec_cases op
  · rw [hexec fuel]
    exact (Interns.building fun p => (hbuilt p).grows).map
  · exact (s.apply_interns fuel i).map
  · exact m.supertype_interns target fuel i

/-- Given positions of a sound pool, an operation answers with one, and the pool
stays sound. -/
theorem exec_sound (fuel : Nat) (hp : p.Sound) (hop : op.Within p) :
    Leads Sound (op.exec fuel) p (fun found q => ∀ j ∈ found, q.Has j) := by
  obtain ⟨f, hexec, hbuilt⟩ | ⟨s, i, rfl⟩ | ⟨m, target, i, rfl⟩ := exec_cases op
  · rw [hexec fuel]
    refine (Leads.building (hbuilt p).grows fun hsize => ?_).found
    have hout := hbuilt p
    generalize f p = out at hout hsize ⊢
    cases hout with
    | given hi => exact ⟨hp, hop _ hi⟩
    | error => exact ⟨hp, hp.grown.has_error⟩
    | bottom => exact ⟨hp, hp.grown.has_bottom⟩
    | interned hparts =>
      refine (hp.intern (fun j hj => ?_) hsize).imp_right And.left
      obtain hgiven | ⟨i, hi, hpart⟩ := hparts j hj
      · exact hop j hgiven
      · exact hp.closed.has (hop i hi) hpart
  · have hs : s.Within p := fun e he => hop e.2 (.inr ⟨e, he, rfl⟩)
    exact ((PoolSubst.apply_leads fuel hp (hop i (.inl rfl)) hs).mono fun _ _ _ hi => hi.1).found
  · have hm : m.Within p :=
      ⟨fun d j hj => hop j (.inr (.inl ⟨d, hj⟩)), fun a j hj => hop j (.inr (.inr ⟨a, hj⟩))⟩
    exact (PooledModel.supertype_leads (M := .new) (C := False) target fuel fuel (Nat.le_refl _) hp
      (hop i (.inl rfl)) hm False.elim).mono fun _ _ _ hfound => hfound.1

end PoolOp

/-! ## What an operation hands out -/

section Stored

variable {α : Type} {p : TypePool} {i : TypeIdx}

theorem Pooled.Interns.leads {x : Pooled α} (hx : Interns x) (hp : Grows new p) :
    Leads (Grows new) x p (fun _ _ => True) := by
  intro a q hrun _
  have hgrows : Grows p q := hx p a q hrun
  exact ⟨hgrows, hp.trans hgrows, trivial⟩

theorem TypePool.Grows.has_intern (hp : Grows new p) (n : TypeNode)
    (hsize : (p.intern n).2.size ≤ TypeIdx.count) : (p.intern n).2.Has (p.intern n).1 := by
  have hle : p.size ≤ TypeIdx.count := Nat.le_trans (grows_intern p n).size_le hsize
  exact (hp.inverse inverse_new hle).has_intern hsize

theorem Pooled.Leads.stored (hp : Grows new p) (n : TypeNode) :
    Leads (Grows new) (Pooled.building (·.intern n)) p (fun j q => q.Has j) :=
  Leads.building (grows_intern p n) fun hsize =>
    ⟨hp.trans (grows_intern p n), hp.has_intern n hsize⟩

theorem TypePool.has_of_node_ne_error (h : p.node i ≠ .error) : p.Has i := by
  refine Nat.lt_of_not_le fun hle => h ?_
  unfold node
  rw [Array.getElem?_eq_none hle]
  rfl

/-- A substitution answers with a node that it interned, or with what it was
given. -/
theorem PoolSubst.apply_stored (s : PoolSubst) (hp : Grows new p) (fuel : Nat) :
    Leads (Grows new) (s.apply fuel i) p
      (fun j q => q.Has j ∨ (PoolOp.substitute s i).Given j) := by
  cases fuel with
  | zero => exact Leads.tooDeep
  | succ fuel =>
    have hpart : ∀ j, Interns (s.apply fuel j) := s.apply_interns fuel
    have hsame : Leads (Grows new) (Pure.pure i : Pooled TypeIdx) p
        (fun j q => q.Has j ∨ (PoolOp.substitute s i).Given j) := Leads.pure hp (.inr (.inl rfl))
    have hstored : ∀ (n : TypeNode) {q : TypePool}, Grows new q →
        Leads (Grows new) (building (·.intern n)) q
          (fun j r => r.Has j ∨ (PoolOp.substitute s i).Given j) := fun n q hq =>
      (Leads.stored hq n).mono fun j r _ hj => .inl hj
    unfold PoolSubst.apply
    split
    · exact hsame
    · refine Leads.read ?_
      cases p.node i with
      | param a =>
        refine Leads.pure hp (.inr ?_)
        cases ha : s.lookup a with
        | none => exact .inl rfl
        | some j => exact .inr (exists_of_lookup ha)
      | nominal d as o h =>
        refine ((Interns.each hpart as).leads hp).bind
          (fun _ => (Interns.ifAny hpart o).bind fun _ => .building fun _ => grows_intern _ _)
          fun args q _ hq _ => ?_
        exact ((Interns.ifAny hpart o).leads hq).bind (fun _ => .building fun _ => grows_intern _ _)
          fun outer r _ hr _ => hstored _ hr
      | union cases =>
        exact ((Interns.each hpart cases).leads hp).bind
          (fun _ => .building fun _ => grows_intern _ _) fun replaced q _ hq _ => hstored _ hq
      | inter bounds =>
        exact ((Interns.each hpart bounds).leads hp).bind
          (fun _ => .building fun _ => grows_intern _ _) fun replaced q _ hq _ => hstored _ hq
      | bottom => exact hsame
      | error => exact hsame

namespace PooledModel

variable (m : PooledModel) (target : DeclId)

theorem bottomInstance_stored (hp : Grows new p) :
    Leads (Grows new) (some <$> m.bottomInstance target) p (fun found q => ∀ j ∈ found, q.Has j) :=
  (Leads.stored hp _).found

theorem joinInstances_stored (hp : Grows new p) {found : List TypeIdx}
    (hfound : ∀ j ∈ found, p.Has j) :
    Leads (Grows new) (m.joinInstances target found) p (fun joined q => ∀ j ∈ joined, q.Has j) := by
  unfold joinInstances
  split
  · exact m.bottomInstance_stored target hp
  · exact Leads.pure hp fun k hk => Option.some.inj hk ▸ hfound _ List.mem_cons_self
  · refine Leads.read ?_
    split
    · refine Leads.read (((m.joinArguments_interns _ _).leads hp).bind (fun joined => ?_)
        fun joined q _ hq _ => ?_)
      · cases joined with
        | none => exact .pure _
        | some js => exact (Interns.building fun p => grows_intern p _).map
      · cases joined with
        | none => exact Leads.pure hq (by simp)
        | some js => exact (Leads.stored hq _).found
    · exact Leads.pure hp (by simp)

/-- A climb answers with a node that the pool stores, whatever it is asked. -/
theorem supertype_stored : ∀ fuel {p : TypePool} {i : TypeIdx}, Grows new p →
    Leads (Grows new) (m.supertype target fuel i) p (fun found q => q.Answers False found none)
  | 0, _, _, _ => Leads.tooDeep
  | fuel + 1, p, i, hp => by
    have hinterns : ∀ j, Interns (m.supertype target fuel j) := m.supertype_interns target fuel
    have hup : ∀ is : List TypeIdx, Leads (Grows new) (firstOf (m.supertype target fuel) is) p
        (fun found q => q.Answers False found none) := fun is =>
      (firstOf_leads hinterns hp fun q _ hq j _ => supertype_stored fuel hq).mono
        fun found q _ h => h.of_eq False.elim
    unfold supertype
    refine Leads.read ?_
    cases hnode : p.node i with
    | nominal d as o h =>
      dsimp only
      split
      · refine Leads.pure hp (answers_some (has_of_node_ne_error ?_) False.elim)
        simp [hnode]
      · refine ((m.substitution_interns fuel i).leads hp).bind
          (fun s => .firstOf (fun t => (s.apply_interns fuel t).bind hinterns) _)
          fun s q _ hq _ => ?_
        refine (firstOf_leads (C := False) (g := fun _ => none)
          (fun t => (s.apply_interns fuel t).bind hinterns) hq fun r _ hr t _ => ?_).mono
          fun found r _ h => h.of_eq False.elim
        exact ((s.apply_interns fuel t).leads hr).bind hinterns
          fun j r' _ hr' _ => supertype_stored fuel hr'
    | param a => exact hup _
    | inter bounds => exact hup bounds
    | union cases =>
      refine (allOf_leads (C := False) (g := fun _ => none) hinterns hp fun q _ hq j _ =>
        supertype_stored fuel hq).bind (fun found => ?_) fun found q _ hq hfound => ?_
      · cases found with
        | none => exact .pure _
        | some found => exact m.joinInstances_interns target found
      · cases found with
        | none => exact Leads.pure hq (answers_none False.elim)
        | some found =>
          exact (m.joinInstances_stored target hq (hfound.1 found rfl)).mono
            fun joined r _ h => ⟨h, False.elim⟩
    | bottom =>
      exact (m.bottomInstance_stored target hp).mono fun found q _ h => ⟨h, False.elim⟩
    | error => exact Leads.pure hp (answers_none False.elim)

end PooledModel

/-- An operation hands out positions of the pool, apart from those it was
given. -/
theorem PoolOp.exec_stored (fuel : Nat) (op : PoolOp) (hp : Grows new p) :
    Leads (Grows new) (op.exec fuel) p (fun found q => ∀ j ∈ found, q.Has j ∨ op.Given j) := by
  obtain ⟨f, hexec, hbuilt⟩ | ⟨s, i, rfl⟩ | ⟨m, target, i, rfl⟩ := exec_cases op
  · rw [hexec fuel]
    refine Leads.map (φ := fun j q => q.Has j ∨ op.Given j)
      (Leads.building (hbuilt p).grows fun hsize => ⟨hp.trans (hbuilt p).grows, ?_⟩)
      fun j q _ hj k hk => Option.some.inj hk ▸ hj
    have hout := hbuilt p
    generalize f p = out at hout hsize ⊢
    cases hout with
    | given hi => exact .inr hi
    | error => exact .inl hp.has_error
    | bottom => exact .inl hp.has_bottom
    | interned _ => exact .inl (hp.has_intern _ hsize)
  · exact (s.apply_stored hp fuel).map fun j q _ hj k hk => Option.some.inj hk ▸ hj
  · exact (m.supertype_stored target fuel hp).mono fun found q _ h j hj => .inl (h.1 j hj)

end Stored

/-! ## Runs -/

/-- The operation comes to an end, with an answer and a pool. -/
def PoolOp.Step (op : PoolOp) (p : TypePool) (found : Option TypeIdx) (q : TypePool) : Prop :=
  ∃ fuel, op.exec fuel p = some (found, q)

/-- Some operations, each of them allowed in the pool that it finds, lead from
one pool to another. -/
inductive PoolRun (allowed : TypePool → PoolOp → Prop) (p : TypePool) : TypePool → Prop where
  | start : PoolRun allowed p p
  | step {q r : TypePool} {op : PoolOp} {found : Option TypeIdx} :
    PoolRun allowed p q → allowed q op → op.Step q found r → PoolRun allowed p r

/-- Operations of any kind, with any positions. -/
def anyOp (_ : TypePool) (_ : PoolOp) : Prop := True

/-- Operations that are given positions of the pool only. -/
def knownOp (p : TypePool) (op : PoolOp) : Prop := op.Within p

namespace PoolRun

variable {allowed : TypePool → PoolOp → Prop} {p q : TypePool}

theorem grows (h : PoolRun allowed p q) : Grows p q := by
  induction h with
  | start => exact .refl
  | @step q r op found _ _ hstep ih =>
    obtain ⟨fuel, hexec⟩ := hstep
    exact ih.trans (op.exec_interns fuel q found r hexec)

theorem mono {allowed' : TypePool → PoolOp → Prop} (h : PoolRun allowed p q)
    (hallowed : ∀ p op, allowed p op → allowed' p op) : PoolRun allowed' p q := by
  induction h with
  | start => exact .start
  | step _ hop hstep ih => exact .step ih (hallowed _ _ hop) hstep

theorem sound (h : PoolRun knownOp new p) (hsize : p.size ≤ TypeIdx.count) : p.Sound := by
  induction h with
  | start => exact sound_new
  | @step q r op found _ hknown hstep ih =>
    obtain ⟨fuel, hexec⟩ := hstep
    have hgrows : Grows q r := op.exec_interns fuel q found r hexec
    have hq : q.Sound := ih (Nat.le_trans hgrows.size_le hsize)
    exact (op.exec_sound fuel hq hknown found r hexec hsize).2.1

end PoolRun

/-- Interning and looking up undo each other, and the first two positions are
those of the first two nodes. -/
structure TypePool.Faithful (p : TypePool) : Prop where
  node_intern : ∀ n, (p.intern n).2.node (p.intern n).1 = n
  intern_node : ∀ i, p.Has i → p.intern (p.node i) = (i, p)
  eq_iff : ∀ i j, p.Has i → p.Has j → (i = j ↔ p.node i = p.node j)
  bottom_iff : ∀ i, p.node i = .bottom ↔ i = .bottom
  /-- Past the end everything reads as the erroneous type. -/
  error_iff : ∀ i, p.node i = .error ↔ i = .error ∨ ¬ p.Has i

theorem TypePool.Grows.faithful {p : TypePool} (h : Grows new p)
    (hsize : p.size < TypeIdx.count) : p.Faithful := by
  have hinverse : p.Inverse := h.inverse inverse_new (Nat.le_of_lt hsize)
  have hmore : ∀ n, (p.intern n).2.size ≤ TypeIdx.count := fun n =>
    Nat.le_trans (size_intern_le p n) hsize
  refine ⟨fun n => hinverse.node_intern (hmore n), fun i => hinverse.intern_node, ?_, ?_, ?_⟩
  · intro i j hi hj
    exact ⟨fun heq => heq ▸ rfl, hinverse.node_inj hi hj⟩
  · intro i
    constructor
    · intro hi
      have hhas : p.Has i := has_of_node_ne_error (by rw [hi]; simp)
      exact hinverse.node_inj hhas h.has_bottom (hi.trans h.node_bottom.symm)
    · rintro rfl
      exact h.node_bottom
  · intro i
    constructor
    · intro hi
      by_cases hhas : p.Has i
      · exact .inl (hinverse.node_inj hhas h.has_error (hi.trans h.node_error.symm))
      · exact .inr hhas
    · rintro (rfl | hhas)
      · exact h.node_error
      · exact Decidable.byContradiction fun hne => hhas (has_of_node_ne_error hne)

/-- In each pool that a run reaches, with fewer nodes than there are positions:
interning and looking up undo each other; what an operation hands out is stored,
apart from what it was given; what is stored stays where it is; and if all
operations of the run were given positions of the pool only, nodes refer to
smaller positions, so that recursion over types is well-founded. -/
theorem pool_faithful {p : TypePool} (h : PoolRun anyOp new p) (hsize : p.size < TypeIdx.count) :
    p.Faithful ∧
      (∀ (op : PoolOp) found q, op.Step p found q → q.size < TypeIdx.count →
        ∀ j ∈ found, q.Has j ∨ op.Given j) ∧
      (∀ q, PoolRun anyOp p q → ∀ i, p.Has i → q.Has i ∧ q.node i = p.node i) ∧
      (PoolRun knownOp new p → p.Closed ∧ WellFounded p.PartOf) := by
  refine ⟨h.grows.faithful hsize, ?_, ?_, ?_⟩
  · rintro op found q ⟨fuel, hexec⟩ hq
    exact (op.exec_stored fuel h.grows found q hexec (Nat.le_of_lt hq)).2.2
  · intro q hrun i hi
    exact ⟨hrun.grows.has hi, hrun.grows.node hi⟩
  · intro hknown
    have hclosed : p.Closed := (hknown.sound (Nat.le_of_lt hsize)).closed
    exact ⟨hclosed, hclosed.wellFounded⟩

/-- A class with a covariant parameter, and a class that extends the
instantiation at position 3. -/
def boxModel : PooledModel where
  decl d := if d = ⟨1⟩ then ⟨[⟨0⟩], []⟩ else if d = ⟨2⟩ then ⟨[], [⟨3⟩]⟩ else default
  param _ := ⟨.covariant, [], false⟩

/-- An argument, an instantiation, a class that extends it, and the union of the
last two. -/
def boxPool : TypePool :=
  let p := (new.nominal ⟨0⟩ []).2
  let p := (p.nominal ⟨1⟩ [⟨2⟩]).2
  let p := (p.nominal ⟨2⟩ []).2
  (p.union [⟨3⟩, ⟨4⟩]).2

theorem boxPool_reached : PoolRun knownOp new boxPool := by
  let p := (new.nominal ⟨0⟩ []).2
  let q := (p.nominal ⟨1⟩ [⟨2⟩]).2
  let r := (q.nominal ⟨2⟩ []).2
  have hargument : (PoolOp.nominal ⟨0⟩ []).Step new (some ⟨2⟩) p := ⟨0, rfl⟩
  have hinstance : (PoolOp.nominal ⟨1⟩ [⟨2⟩]).Step p (some ⟨3⟩) q := ⟨0, rfl⟩
  have hclass : (PoolOp.nominal ⟨2⟩ []).Step q (some ⟨4⟩) r := ⟨0, rfl⟩
  have hunion : (PoolOp.union [⟨3⟩, ⟨4⟩]).Step r (some ⟨5⟩) boxPool := ⟨0, rfl⟩
  refine .step (.step (.step (.step .start ?_ hargument) ?_ hinstance) ?_ hclass) ?_ hunion
  · intro j hj
    cases hj
  · intro j hj
    obtain rfl := List.mem_singleton.mp hj
    decide
  · intro j hj
    cases hj
  · intro j hj
    obtain rfl | hj := List.mem_cons.mp hj
    · decide
    · obtain rfl := List.mem_singleton.mp hj
      decide

theorem boxPool_supertype :
    (PoolOp.supertype boxModel ⟨1⟩ ⟨5⟩).Step boxPool (some ⟨3⟩) boxPool :=
  ⟨3, rfl⟩

theorem boxPool_faithful :
    PoolRun anyOp new boxPool ∧ boxPool.size < TypeIdx.count ∧ boxPool.Faithful ∧
      (boxPool.Has ⟨3⟩ ∨ (PoolOp.supertype boxModel ⟨1⟩ ⟨5⟩).Given ⟨3⟩) ∧ boxPool.Closed := by
  have hrun : PoolRun anyOp new boxPool := boxPool_reached.mono fun _ _ _ => trivial
  have hsize : boxPool.size < TypeIdx.count := by decide
  obtain ⟨hfaithful, hstored, -, hclosed⟩ := pool_faithful hrun hsize
  have hanswer : boxPool.Has ⟨3⟩ ∨ (PoolOp.supertype boxModel ⟨1⟩ ⟨5⟩).Given ⟨3⟩ :=
    hstored _ _ _ boxPool_supertype hsize ⟨3⟩ rfl
  exact ⟨hrun, hsize, hfaithful, hanswer, (hclosed boxPool_reached).1⟩

end TreeLowering
