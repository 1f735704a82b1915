import TreeLowering.Proofs.Instantiation
import TreeLowering.Proofs.RefinementSafety
set_option autoImplicit false

/-!
# Proofs: the walk that collects refined members

The walk goes depth first through the supertypes of a declaration and visits
nothing twice.  It is stated here as a relation without room, between what was
visited before and after it and the declarations in the order in which they are
left: what a walk leaves is what can be reached, each declaration once, and in an
acyclic hierarchy after all that is above it.  The members are those of the
declarations left, in that order.
-/

namespace TreeLowering

/-- In a list without repetitions, what comes first of three comes before the
last. -/
theorem pair_sublist_trans {α : Type} {l : List α} (hl : l.Nodup) {a b c : α}
    (hab : [a, b].Sublist l) (hbc : [b, c].Sublist l) : [a, c].Sublist l := by
  obtain ⟨upTo, after, rfl, ha, hb⟩ := List.cons_sublist_iff.mp hab
  obtain ⟨upTo', after', heq, hb', hc⟩ := List.cons_sublist_iff.mp hbc
  rw [List.singleton_sublist] at hb hc
  refine List.Sublist.append (List.singleton_sublist.mpr ha) (List.singleton_sublist.mpr ?_)
  obtain ⟨rest, rfl, rfl⟩ | ⟨rest, rfl, rfl⟩ := List.append_eq_append_iff.mp heq
  · exact List.mem_append_right _ hc
  · -- What is in both parts would be in the list twice.
    exact absurd hb (List.disjoint_of_nodup_append hl (List.mem_append_left _ hb'))

/-- What is in the first part comes before what is in the second. -/
theorem pair_sublist_append {α : Type} {l l' : List α} {a b : α} (ha : a ∈ l) (hb : b ∈ l') :
    [a, b].Sublist (l ++ l') :=
  (List.singleton_sublist.mpr ha).append (List.singleton_sublist.mpr hb)

namespace Model

open Relation

variable {m : Model} {visited todo order after : List DeclId} {d e x : DeclId} {name : String}

theorem mem_superDecls_iff : e ∈ m.superDecls d ↔ m.DirectlyBelow d e := by
  rw [superDecls, List.mem_filterMap, DirectlyBelow]

/-- No declaration is above itself. -/
def AcyclicClasses (m : Model) : Prop := ∀ d, ¬ TransGen m.DirectlyBelow d d

/-! ## Walks -/

/-- A walk from a list of declarations, with what was visited before: the
declarations in the order in which they are left, and what is visited after. -/
inductive Walk (m : Model) : List DeclId → List DeclId → List DeclId → List DeclId → Prop
  | done {visited : List DeclId} : Walk m visited [] [] visited
  | seen {visited todo order after : List DeclId} {d : DeclId} (hd : d ∈ visited)
      (rest : Walk m visited todo order after) : Walk m visited (d :: todo) order after
  | enter {visited todo inner between order after : List DeclId} {d : DeclId} (hd : d ∉ visited)
      (above : Walk m (d :: visited) (m.superDecls d) inner between)
      (rest : Walk m between todo order after) :
      Walk m visited (d :: todo) (inner ++ d :: order) after

namespace Walk

theorem mem_after_iff (h : m.Walk visited todo order after) :
    x ∈ after ↔ x ∈ visited ∨ x ∈ order := by
  induction h with
  | done => simp
  | seen _ _ ih => exact ih
  | enter _ _ _ ihabove ihrest =>
    rw [ihrest, ihabove]
    simp only [List.mem_cons, List.mem_append, or_assoc, or_left_comm]

theorem visits (h : m.Walk visited todo order after) (hd : d ∈ todo) : d ∈ after := by
  induction h with
  | done => exact absurd hd List.not_mem_nil
  | seen hseen rest ih =>
    rcases List.mem_cons.mp hd with rfl | hd
    · exact rest.mem_after_iff.mpr (.inl hseen)
    · exact ih hd
  | enter _ above rest _ ih =>
    rcases List.mem_cons.mp hd with rfl | hd
    · exact rest.mem_after_iff.mpr (.inl (above.mem_after_iff.mpr (.inl List.mem_cons_self)))
    · exact ih hd

/-- A walk leaves nothing that was visited before it. -/
theorem fresh (h : m.Walk visited todo order after) (hx : x ∈ order) : x ∉ visited := by
  induction h with
  | done => exact absurd hx List.not_mem_nil
  | seen _ _ ih => exact ih hx
  | enter hd above _ ihabove ihrest =>
    rcases List.mem_append.mp hx with hx | hx
    · exact fun hvisited => ihabove hx (List.mem_cons_of_mem _ hvisited)
    · rcases List.mem_cons.mp hx with rfl | hx
      · exact hd
      · exact fun hvisited => ihrest hx
          (above.mem_after_iff.mpr (.inl (List.mem_cons_of_mem _ hvisited)))

theorem nodup (h : m.Walk visited todo order after) : order.Nodup := by
  induction h with
  | done => exact List.nodup_nil
  | seen _ _ ih => exact ih
  | enter _ above rest ihabove ihrest =>
    refine List.nodup_append'.mpr ⟨ihabove, List.nodup_cons.mpr ⟨fun hd => ?_, ihrest⟩, ?_⟩
    · exact rest.fresh hd (above.mem_after_iff.mpr (.inl List.mem_cons_self))
    · intro y hy hy'
      rcases List.mem_cons.mp hy' with rfl | hy'
      · exact above.fresh hy List.mem_cons_self
      · exact rest.fresh hy' (above.mem_after_iff.mpr (.inr hy))

theorem reached (h : m.Walk visited todo order after) (hx : x ∈ order) :
    ∃ d ∈ todo, ReflTransGen m.DirectlyBelow d x := by
  induction h with
  | done => exact absurd hx List.not_mem_nil
  | seen _ _ ih =>
    obtain ⟨d, hd, hdx⟩ := ih hx
    exact ⟨d, List.mem_cons_of_mem _ hd, hdx⟩
  | enter _ _ _ ihabove ihrest =>
    rcases List.mem_append.mp hx with hx | hx
    · obtain ⟨e, he, hex⟩ := ihabove hx
      exact ⟨_, List.mem_cons_self, .head (mem_superDecls_iff.mp he) hex⟩
    · rcases List.mem_cons.mp hx with rfl | hx
      · exact ⟨x, List.mem_cons_self, .refl⟩
      · obtain ⟨e, he, hex⟩ := ihrest hx
        exact ⟨e, List.mem_cons_of_mem _ he, hex⟩

/-- What is above a declaration that was left is visited as well. -/
theorem closed (h : m.Walk visited todo order after) (hx : x ∈ order)
    (he : m.DirectlyBelow x e) : e ∈ after := by
  induction h with
  | done => exact absurd hx List.not_mem_nil
  | seen _ _ ih => exact ih hx
  | enter _ above rest ihabove ihrest =>
    rcases List.mem_append.mp hx with hx | hx
    · exact rest.mem_after_iff.mpr (.inl (ihabove hx))
    · rcases List.mem_cons.mp hx with rfl | hx
      · exact rest.mem_after_iff.mpr (.inl (above.visits (mem_superDecls_iff.mpr he)))
      · exact ihrest hx

/-- Where nothing visited before can be reached, a walk leaves all that can. -/
theorem mem_order_iff (h : m.Walk visited todo order after)
    (hunseen : ∀ d ∈ todo, ∀ v ∈ visited, ¬ ReflTransGen m.DirectlyBelow d v) :
    x ∈ order ↔ ∃ d ∈ todo, ReflTransGen m.DirectlyBelow d x := by
  refine ⟨h.reached, ?_⟩
  rintro ⟨d, hd, hdx⟩
  induction hdx with
  | refl =>
    exact (h.mem_after_iff.mp (h.visits hd)).resolve_left fun hv => hunseen d hd d hv .refl
  | tail hdx hstep ih =>
    exact (h.mem_after_iff.mp (h.closed ih hstep)).resolve_left fun hv =>
      hunseen d hd _ hv (hdx.tail hstep)

/-- Without cycles, what is directly above a declaration is visited before the
walk or left earlier.  Of the declarations that the walk is inside of, none is
above the one that it leaves. -/
theorem earlier (hacyclic : m.AcyclicClasses) (h : m.Walk visited todo order after)
    (hx : x ∈ order) (he : m.DirectlyBelow x e) : e ∈ visited ∨ [e, x].Sublist order := by
  induction h with
  | done => exact absurd hx List.not_mem_nil
  | seen _ _ ih => exact ih hx
  | @enter visited todo inner between order after d _ above rest ihabove ihrest =>
    have hbetween : e ∈ between → e = d ∨ e ∈ visited ∨ e ∈ inner := fun hmem => by
      simpa [or_assoc] using above.mem_after_iff.mp hmem
    rcases List.mem_append.mp hx with hinner | hrest
    · rcases ihabove hinner with hmem | hsub
      · rcases List.mem_cons.mp hmem with rfl | hmem
        · obtain ⟨s, hs, hsx⟩ := above.reached hinner
          exact absurd (TransGen.head' (mem_superDecls_iff.mp hs) (hsx.tail he)) (hacyclic e)
        · exact .inl hmem
      · exact .inr (hsub.trans (List.sublist_append_left _ _))
    · rcases List.mem_cons.mp hrest with rfl | hlater
      · rcases hbetween (above.visits (mem_superDecls_iff.mpr he)) with rfl | hmem | hmem
        · exact absurd (.single he) (hacyclic e)
        · exact .inl hmem
        · exact .inr (pair_sublist_append hmem List.mem_cons_self)
      · rcases ihrest hlater with hmem | hsub
        · rcases hbetween hmem with rfl | hmem | hmem
          · exact .inr ((List.cons_sublist_cons.mpr (List.singleton_sublist.mpr hlater)).trans
              (List.sublist_append_right _ _))
          · exact .inl hmem
          · exact .inr (pair_sublist_append hmem (List.mem_cons_of_mem _ hlater))
        · exact .inr (hsub.trans
            ((List.sublist_cons_self _ _).trans (List.sublist_append_right _ _)))

/-- Without cycles, a walk that begins with nothing visited leaves what is above
a declaration before it. -/
theorem above_first (hacyclic : m.AcyclicClasses) (h : m.Walk [] todo order after)
    (hx : x ∈ order) (he : TransGen m.DirectlyBelow x e) : [e, x].Sublist order := by
  have hdirect : ∀ {y f}, y ∈ order → m.DirectlyBelow y f → [f, y].Sublist order :=
    fun hy hf => (h.earlier hacyclic hy hf).resolve_left List.not_mem_nil
  induction he with
  | single hstep => exact hdirect hx hstep
  | tail _ hstep ih =>
    exact pair_sublist_trans h.nodup (hdirect (ih.subset List.mem_cons_self) hstep) ih

/-- A walk from two lists goes from the first one and then from the second. -/
theorem split {ds es : List DeclId} (h : m.Walk visited (ds ++ es) order after) :
    ∃ order₁ between order₂, m.Walk visited ds order₁ between ∧
      m.Walk between es order₂ after ∧ order = order₁ ++ order₂ := by
  induction ds generalizing visited order with
  | nil => exact ⟨[], visited, order, .done, h, rfl⟩
  | cons d ds ih =>
    cases h with
    | seen hd rest =>
      obtain ⟨order₁, between, order₂, h₁, h₂, rfl⟩ := ih rest
      exact ⟨order₁, between, order₂, .seen hd h₁, h₂, rfl⟩
    | enter hd above rest =>
      obtain ⟨order₁, between, order₂, h₁, h₂, rfl⟩ := ih rest
      exact ⟨_, between, order₂, .enter hd above h₁, h₂, by simp⟩

end Walk

/-! ## Room for a walk -/

/-- The declarations that were not visited. -/
def unvisited (m : Model) (visited : List DeclId) : List DeclId :=
  m.declIds.filter (· ∉ visited)

theorem unvisited_sublist {visited visited' : List DeclId} (h : ∀ x ∈ visited, x ∈ visited') :
    (m.unvisited visited').Sublist (m.unvisited visited) :=
  List.monotone_filter_right _ fun x hx => by
    simp only [decide_eq_true_eq] at hx ⊢
    exact fun hmem => hx (h x hmem)

/-- A declaration that is entered takes up room, unless it is undeclared. -/
theorem unvisited_lt (hd : d ∈ m.declIds) (hfresh : d ∉ visited) :
    (m.unvisited (d :: visited)).length < (m.unvisited visited).length := by
  have hsub : (m.unvisited (d :: visited)).Sublist (m.unvisited visited) :=
    unvisited_sublist fun x hx => List.mem_cons_of_mem _ hx
  refine lt_of_le_of_ne hsub.length_le fun heq => ?_
  have hmem : d ∈ m.unvisited visited := List.mem_filter.mpr ⟨hd, decide_eq_true hfresh⟩
  rw [← hsub.eq_of_length heq] at hmem
  simp [unvisited] at hmem

theorem superDecls_eq_nil (hd : d ∉ m.declIds) : m.superDecls d = [] := by
  refine List.filterMap_eq_nil_iff.mpr fun s hs => absurd ?_ hd
  exact List.mem_map.mpr ⟨d.index, index_of_supertype hs, rfl⟩

/-- From everywhere, with anything visited, there is a walk. -/
theorem exists_walk (m : Model) (visited todo : List DeclId) :
    ∃ order after, m.Walk visited todo order after := by
  induction hroom : (m.unvisited visited).length using Nat.strong_induction_on
    generalizing visited todo with
  | _ room ih =>
    subst hroom
    -- Within the same room, the walk goes on with what is left to do.
    suffices hrest : ∀ now, (∀ y ∈ visited, y ∈ now) → ∃ order after, m.Walk now todo order after
      from hrest visited fun _ hy => hy
    induction todo with
    | nil => exact fun now _ => ⟨[], now, .done⟩
    | cons d todo ihtodo =>
      intro now hnow
      by_cases hd : d ∈ now
      · obtain ⟨order, after, h⟩ := ihtodo now hnow
        exact ⟨order, after, .seen hd h⟩
      · obtain ⟨inner, between, habove⟩ :
            ∃ inner between, m.Walk (d :: now) (m.superDecls d) inner between := by
          by_cases hdeclared : d ∈ m.declIds
          · exact ih _ ((unvisited_lt hdeclared hd).trans_le (unvisited_sublist hnow).length_le)
              _ _ rfl
          · rw [superDecls_eq_nil hdeclared]
            exact ⟨[], _, .done⟩
        obtain ⟨order, after, h⟩ := ihtodo between fun y hy =>
          habove.mem_after_iff.mpr (.inl (List.mem_cons_of_mem _ (hnow y hy)))
        exact ⟨_, after, .enter hd habove h⟩

/-! ## Members along a walk -/

theorem container_of_directMember? (h : m.directMember? d name = some x) :
    (m.decl x).container = some d :=
  (mem_members_iff.mp (List.mem_of_find?_eq_some h)).2

/-- The members of a name that declarations have, in their order. -/
def membersOf (m : Model) (name : String) (ds : List DeclId) : List DeclId :=
  ds.filterMap (m.directMember? · name)

theorem mem_membersOf_iff {ds : List DeclId} :
    x ∈ m.membersOf name ds ↔ ∃ e ∈ ds, m.directMember? e name = some x :=
  List.mem_filterMap

/-- Different declarations have different members. -/
theorem nodup_membersOf {ds : List DeclId} (h : ds.Nodup) : (m.membersOf name ds).Nodup :=
  h.filterMap fun _ _ _ hx hy => Option.some.inj
    ((container_of_directMember? hx).symm.trans (container_of_directMember? hy))

/-- The member of a declaration that was not left before is found at its end. -/
theorem addMember_membersOf {ds : List DeclId} (hd : d ∉ ds) :
    Visit.addMember ⟨visited, m.membersOf name ds⟩ (m.directMember? d name) =
      ⟨visited, m.membersOf name (ds ++ [d])⟩ := by
  have hend : m.membersOf name (ds ++ [d]) =
      m.membersOf name ds ++ (m.directMember? d name).toList := by
    simp only [membersOf, List.filterMap_append, List.filterMap_cons, List.filterMap_nil]
    cases m.directMember? d name <;> rfl
  rw [hend]
  cases hfound : m.directMember? d name with
  | none => simp [Visit.addMember]
  | some x =>
    have hnew : x ∉ m.membersOf name ds := fun hx => by
      obtain ⟨e, he, hex⟩ := mem_membersOf_iff.mp hx
      obtain rfl := Option.some.inj
        ((container_of_directMember? hfound).symm.trans (container_of_directMember? hex))
      exact hd he
    simp [Visit.addMember, hnew]

/-- With room for all that is not visited, visiting a list of declarations
follows the walk from it. -/
theorem Walk.visitMembers (h : m.Walk visited todo order after) {fuel : Nat}
    (hfuel : (m.unvisited visited).length < fuel) {left : List DeclId}
    (hleft : ∀ y ∈ left, y ∈ visited) :
    todo.foldl (fun v s => m.visitMembers name fuel s v) ⟨visited, m.membersOf name left⟩ =
      ⟨after, m.membersOf name (left ++ order)⟩ := by
  induction h generalizing fuel left with
  | done => simp
  | seen hd _ ih =>
    obtain ⟨fuel, rfl⟩ := Nat.exists_eq_succ_of_ne_zero (Nat.ne_zero_of_lt hfuel)
    rw [List.foldl_cons, Model.visitMembers, if_pos hd]
    exact ih hfuel hleft
  | @enter visited todo inner between order after d hd above rest ihabove ihrest =>
    obtain ⟨room, rfl⟩ := Nat.exists_eq_succ_of_ne_zero (Nat.ne_zero_of_lt hfuel)
    have hinner : (m.superDecls d).foldl (fun v s => m.visitMembers name room s v)
        ⟨d :: visited, m.membersOf name left⟩ = ⟨between, m.membersOf name (left ++ inner)⟩ := by
      by_cases hdeclared : d ∈ m.declIds
      · exact ihabove ((unvisited_lt hdeclared hd).trans_le (Nat.le_of_lt_succ hfuel))
          fun y hy => List.mem_cons_of_mem _ (hleft y hy)
      · rw [superDecls_eq_nil hdeclared] at above ⊢
        cases above
        simp
    have hnew : d ∉ left ++ inner := fun hmem => by
      rcases List.mem_append.mp hmem with hmem | hmem
      · exact hd (hleft d hmem)
      · exact above.fresh hmem List.mem_cons_self
    have hkept : ∀ y ∈ visited, y ∈ between := fun y hy =>
      above.mem_after_iff.mpr (.inl (List.mem_cons_of_mem _ hy))
    rw [List.foldl_cons, Model.visitMembers, if_neg hd, hinner, addMember_membersOf hnew,
      ihrest ((unvisited_sublist hkept).length_le.trans_lt hfuel)]
    · simp
    · intro y hy
      simp only [List.mem_append, List.mem_singleton] at hy
      rcases hy with (hy | hy) | rfl
      · exact hkept y (hleft y hy)
      · exact above.mem_after_iff.mpr (.inr hy)
      · exact above.mem_after_iff.mpr (.inl List.mem_cons_self)

/-- The members that a declaration refines are those along the walk from it. -/
theorem Walk.visitMembers_start (h : m.Walk [] [d] order after) {fuel : Nat}
    (hfuel : m.declCount < fuel) :
    (m.visitMembers name fuel d .start).found = m.membersOf name order := by
  have hroom : (m.unvisited []).length < fuel := by
    refine (List.length_filter_le _ _).trans_lt ?_
    simpa [declIds] using hfuel
  have hfold : ([d].foldl (fun v s => m.visitMembers name fuel s v) ⟨[], m.membersOf name []⟩) =
      ⟨after, m.membersOf name order⟩ := h.visitMembers hroom fun y hy => hy
  exact congrArg Visit.found hfold

theorem refinedMembers_eq_of_walk (h : m.Walk [] [d] order after) :
    m.refinedMembers d name = m.membersOf name order :=
  h.visitMembers_start (Nat.lt_succ_self _)

/-! ## The order of the members -/

/-- A declaration can be reached through a declared supertype. -/
def Reaches (m : Model) (s : Ty) (e : DeclId) : Prop :=
  ∃ h, s.decl? = some h ∧ ReflTransGen m.DirectlyBelow h e

/-- Wherever both declarations have a member of the name, that of the first one
is listed before that of the second. -/
def ListsBefore (m : Model) (d : DeclId) (name : String) (e f : DeclId) : Prop :=
  ∀ y x, m.directMember? e name = some y → m.directMember? f name = some x →
    [y, x].Sublist (m.refinedMembers d name)

theorem listsBefore_of_walk (h : m.Walk [] [d] order after) {f : DeclId}
    (hef : [e, f].Sublist order) : m.ListsBefore d name e f := by
  intro y x hy hx
  rw [refinedMembers_eq_of_walk h]
  simpa [membersOf, hy, hx] using hef.filterMap (m.directMember? · name)

/-- Without cycles, what the first supertypes reach is listed before what only
the others do. -/
theorem listsBefore_of_supertypes (hacyclic : m.AcyclicClasses) {before later : List Ty}
    (hsplit : (m.decl d).supertypes = before ++ later) {f : DeclId}
    (he : ∃ s ∈ before, m.Reaches s e) (hf : ∃ s ∈ later, m.Reaches s f)
    (hnot : ∀ s ∈ before, ¬ m.Reaches s f) : m.ListsBefore d name e f := by
  obtain ⟨order, after, h⟩ := m.exists_walk [] [d]
  refine listsBefore_of_walk h ?_
  -- The walk enters the declaration itself and goes through its supertypes.
  cases h with
  | seen hd => exact absurd hd List.not_mem_nil
  | enter _ above rest =>
    cases rest
    have hheads : ∀ {ts : List Ty} {g : DeclId},
        (∃ h ∈ ts.filterMap Ty.decl?, ReflTransGen m.DirectlyBelow h g) ↔
          ∃ s ∈ ts, m.Reaches s g := by
      intro ts g
      simp only [List.mem_filterMap, Reaches]
      constructor
      · rintro ⟨h, ⟨s, hs, hsh⟩, hg⟩
        exact ⟨s, hs, h, hsh, hg⟩
      · rintro ⟨s, hs, h, hsh, hg⟩
        exact ⟨h, ⟨s, hs, hsh⟩, hg⟩
    have hunseen : ∀ h ∈ m.superDecls d, ∀ v ∈ [d], ¬ ReflTransGen m.DirectlyBelow h v := by
      intro h hh v hv hback
      obtain rfl := List.mem_singleton.mp hv
      exact hacyclic v (.head' (mem_superDecls_iff.mp hh) hback)
    have hall := fun g => above.mem_order_iff (x := g) hunseen
    rw [superDecls, hsplit, List.filterMap_append] at above hunseen
    obtain ⟨order₁, between, order₂, h₁, -, rfl⟩ := above.split
    have hfirst := fun g => h₁.mem_order_iff (x := g)
      fun h hh => hunseen h (List.mem_append_left _ hh)
    have hfmem : f ∈ order₁ ++ order₂ := by
      rw [hall, superDecls, hheads, hsplit]
      obtain ⟨s, hs, hsf⟩ := hf
      exact ⟨s, List.mem_append_right _ hs, hsf⟩
    have hfsecond : f ∈ order₂ := (List.mem_append.mp hfmem).resolve_left fun hmem => by
      obtain ⟨s, hs, hsf⟩ := hheads.mp ((hfirst f).mp hmem)
      exact hnot s hs hsf
    exact (pair_sublist_append ((hfirst e).mpr (hheads.mpr he)) hfsecond).trans
      (List.sublist_append_left _ _)

/-- Where every supertype is declared before what is below it, there are no
cycles. -/
theorem acyclicClasses_of_index
    (h : ∀ i ∈ List.range m.declCount, ∀ e ∈ m.superDecls ⟨i⟩, e.index < i) :
    m.AcyclicClasses := by
  have hlower : ∀ d e, m.DirectlyBelow d e → e.index < d.index := by
    intro d e hde
    obtain ⟨s, hs, he⟩ := hde
    exact h d.index (index_of_supertype hs) e (mem_superDecls_iff.mpr ⟨s, hs, he⟩)
  exact not_transGen_of_rank hlower

/-- An interface `Root`, a class `Base` and an interface `Left` below it, and a
class `Leaf` that extends `Base` and satisfies `Left`; each declares `get`. -/
def inheritedTwice : Model where
  decls := #[
    .bare "Root" .iface "demo" none,
    .bare "get" .attribute "demo" (some ⟨22⟩),
    { Declaration.bare "Base" .cls "demo" none with
      extended := some Language.objectTy, satisfied := [.of ⟨22⟩ []] },
    .bare "get" .attribute "demo" (some ⟨24⟩),
    { Declaration.bare "Left" .iface "demo" none with satisfied := [.of ⟨22⟩ []] },
    .bare "get" .attribute "demo" (some ⟨26⟩),
    { Declaration.bare "Leaf" .cls "demo" none with
      extended := some (.of ⟨24⟩ []), satisfied := [.of ⟨26⟩ []] },
    .bare "get" .attribute "demo" (some ⟨28⟩)]
  params := #[]

/-- The search for the members that a declaration refines ends, in any model.  It
follows a walk through the supertypes, and room for more levels than there are
declarations changes nothing.  The members found are those of the declaration and
of all that can be reached from it, each of them once.  Without cycles, the
member of a declaration is listed after those of all that is above it; what the
extended type reaches comes before what only satisfied types do, and what an
earlier satisfied type reaches before what only later ones do. -/
theorem refinedMembers_complete_nodup_ordered (m : Model) (d : DeclId) (name : String) :
    (∃ order after, m.Walk [] [d] order after ∧
      m.refinedMembers d name = m.membersOf name order) ∧
    (∀ fuel, m.declCount < fuel →
      (m.visitMembers name fuel d .start).found = m.refinedMembers d name) ∧
    (∀ x, x ∈ m.refinedMembers d name ↔
      ∃ e, ReflTransGen m.DirectlyBelow d e ∧ m.directMember? e name = some x) ∧
    (m.refinedMembers d name).Nodup ∧
    (m.AcyclicClasses →
      (∀ e f, ReflTransGen m.DirectlyBelow d f → TransGen m.DirectlyBelow f e →
        m.ListsBefore d name e f) ∧
      (∀ s, (m.decl d).extended = some s → ∀ e f, m.Reaches s e →
        (∃ t ∈ (m.decl d).satisfied, m.Reaches t f) → ¬ m.Reaches s f →
          m.ListsBefore d name e f) ∧
      ∀ earlier t later, (m.decl d).satisfied = earlier ++ t :: later → ∀ e f,
        (∃ s ∈ earlier, m.Reaches s e) → m.Reaches t f →
          (∀ s ∈ (m.decl d).extended.toList ++ earlier, ¬ m.Reaches s f) →
            m.ListsBefore d name e f) := by
  obtain ⟨order, after, h⟩ := m.exists_walk [] [d]
  have hmem : ∀ {y}, y ∈ order ↔ ReflTransGen m.DirectlyBelow d y := by
    intro y
    rw [h.mem_order_iff fun _ _ v hv => absurd hv List.not_mem_nil]
    simp
  have hmembers : m.refinedMembers d name = m.membersOf name order := refinedMembers_eq_of_walk h
  refine ⟨⟨order, after, h, hmembers⟩, fun fuel hfuel => ?_, fun x => ?_, ?_, fun hacyclic =>
    ⟨fun e f hf hef => ?_, fun s hs e f he hf hnot => ?_,
      fun earlier t later hsplit e f he hf hnot => ?_⟩⟩
  · rw [h.visitMembers_start hfuel, hmembers]
  · simp only [hmembers, mem_membersOf_iff, hmem]
  · rw [hmembers]
    exact nodup_membersOf h.nodup
  · exact listsBefore_of_walk h (h.above_first hacyclic (hmem.mpr hf) hef)
  · have hsplit : (m.decl d).supertypes = [s] ++ (m.decl d).satisfied := by
      rw [Declaration.supertypes, hs, Option.toList_some]
    exact listsBefore_of_supertypes hacyclic hsplit (by simpa using he) hf (by simpa using hnot)
  · have hsplit : (m.decl d).supertypes =
        ((m.decl d).extended.toList ++ earlier) ++ t :: later := by
      rw [Declaration.supertypes, hsplit, List.append_assoc]
    obtain ⟨s, hs, hse⟩ := he
    exact listsBefore_of_supertypes hacyclic hsplit ⟨s, List.mem_append_right _ hs, hse⟩
      ⟨t, List.mem_cons_self, hf⟩ hnot

/-- `Leaf` refines the member of `Base`, which it extends, before that of `Left`,
and that of `Root` before both. -/
theorem inheritedTwice_refinedMembers :
    inheritedTwice.AcyclicClasses ∧
      inheritedTwice.refinedMembers ⟨28⟩ "get" = [⟨23⟩, ⟨25⟩, ⟨27⟩, ⟨29⟩] ∧
      inheritedTwice.ListsBefore ⟨28⟩ "get" ⟨24⟩ ⟨26⟩ ∧
      inheritedTwice.ListsBefore ⟨28⟩ "get" ⟨22⟩ ⟨26⟩ := by
  have hacyclic : inheritedTwice.AcyclicClasses := acyclicClasses_of_index (by decide)
  have hleaf := refinedMembers_complete_nodup_ordered inheritedTwice ⟨28⟩ "get"
  have hbase := refinedMembers_complete_nodup_ordered inheritedTwice ⟨24⟩ "get"
  have hroot : inheritedTwice.DirectlyBelow ⟨26⟩ ⟨22⟩ := mem_superDecls_iff.mp (by decide)
  have hleft : inheritedTwice.DirectlyBelow ⟨28⟩ ⟨26⟩ := mem_superDecls_iff.mp (by decide)
  refine ⟨hacyclic, by decide, ?_, (hleaf.2.2.2.2 hacyclic).1 _ _ (.single hleft) (.single hroot)⟩
  refine (hleaf.2.2.2.2 hacyclic).2.1 (.of ⟨24⟩ []) (by decide) _ _ ⟨_, rfl, .refl⟩
    ⟨.of ⟨26⟩ [], by decide, _, rfl, .refl⟩ ?_
  rintro ⟨_, ⟨⟩, hreach⟩
  -- The member of what `Base` reached would be among those that it refines.
  exact absurd ((hbase.2.2.1 ⟨27⟩).mpr ⟨_, hreach, by decide⟩) (by decide)

end Model

end TreeLowering
