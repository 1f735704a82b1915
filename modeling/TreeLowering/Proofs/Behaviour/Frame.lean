import TreeLowering.Proofs.Behaviour.Agreement
import TreeLowering.Proofs.SyntheticName
import TreeLowering.Proofs.Yield
set_option autoImplicit false

/-!
# Behaviour: frames

A tree and its lowered code run side by side over one frame.  A shared slot is
a variable of both, under a source name and under the name that the code has for
it; a hidden slot is a variable of the code alone.

A frame fits a state of the lowering when every source name finds the same slot
as the name it stands for, and when the guard of the loop around is a hidden
slot of its own.
-/

namespace TreeLowering.Behaviour

/-- A variable of the code. -/
inductive Slot where
  /-- It is a variable of the tree as well. -/
  | shared (source target : String) (v : Value)
  | hidden (target : String) (v : Value)
  deriving Repr, Inhabited

/-- The code's name of a variable. -/
def Slot.target : Slot → String
  | shared _ y _ | hidden y _ => y

/-- The variables of a tree and of its code, the latest first. -/
abbrev Frame := List Slot

namespace Frame

/-- The variables of the tree. -/
def source : Frame → Locals
  | [] => []
  | .shared x _ v :: K => (x, v) :: source K
  | .hidden _ _ :: K => source K

/-- The variables of the code. -/
def target : Frame → Locals
  | [] => []
  | .shared _ y v :: K => (y, v) :: target K
  | .hidden y v :: K => (y, v) :: target K

theorem source_append (K L : Frame) : (K ++ L).source = K.source ++ L.source := by
  induction K with
  | nil => rfl
  | cons slot K ih => cases slot <;> simp [source, ih]

theorem target_append (K L : Frame) : (K ++ L).target = K.target ++ L.target := by
  induction K with
  | nil => rfl
  | cons slot K ih => cases slot <;> simp [target, ih]

/-- Variables that tree and code name alike. -/
def ofLocals (ρ : Locals) : Frame := ρ.map (fun e => .shared e.1 e.1 e.2)

theorem source_ofLocals (ρ : Locals) : (ofLocals ρ).source = ρ := by
  induction ρ with
  | nil => rfl
  | cons e ρ ih => simp only [ofLocals, List.map_cons, source] at ih ⊢; rw [ih]

theorem target_ofLocals (ρ : Locals) : (ofLocals ρ).target = ρ := by
  induction ρ with
  | nil => rfl
  | cons e ρ ih => simp only [ofLocals, List.map_cons, target] at ih ⊢; rw [ih]

/-! ## Frames that differ in values -/

/-- The slots are the same, but shared ones may hold other values. -/
inductive Same : Frame → Frame → Prop where
  | nil : Same [] []
  | shared {K L : Frame} (x y : String) (v w : Value) (h : Same K L) :
    Same (.shared x y v :: K) (.shared x y w :: L)
  | hidden {K L : Frame} (y : String) (v : Value) (h : Same K L) :
    Same (.hidden y v :: K) (.hidden y v :: L)

theorem Same.refl : ∀ K : Frame, Same K K
  | [] => .nil
  | .shared x y v :: K => .shared x y v v (refl K)
  | .hidden y v :: K => .hidden y v (refl K)

theorem Same.trans {K L M : Frame} (h : Same K L) (h' : Same L M) : Same K M := by
  induction h generalizing M with
  | nil => exact h'
  | shared x y v w _ ih =>
    cases h' with
    | shared _ _ _ u h' => exact .shared x y v u (ih h')
  | hidden y v _ ih =>
    cases h' with
    | hidden _ _ h' => exact .hidden y v (ih h')

theorem Same.length_source {K L : Frame} (h : Same K L) :
    K.source.length = L.source.length := by
  induction h with
  | nil => rfl
  | shared _ _ _ _ _ ih => simp [source, ih]
  | hidden _ _ _ ih => exact ih

theorem Same.length_target {K L : Frame} (h : Same K L) :
    K.target.length = L.target.length := by
  induction h with
  | nil => rfl
  | shared _ _ _ _ _ ih => simp [target, ih]
  | hidden _ _ _ ih => simp [target, ih]

theorem Same.targets {K L : Frame} (h : Same K L) : L.map Slot.target = K.map Slot.target := by
  induction h with
  | nil => rfl
  | shared _ _ _ _ _ ih => simp [Slot.target, ih]
  | hidden _ _ _ ih => simp [Slot.target, ih]

/-- A frame of two parts stays one of two parts. -/
theorem Same.append_left {K L M : Frame} (h : Same (K ++ L) M) :
    ∃ K' L', M = K' ++ L' ∧ Same K K' ∧ Same L L' := by
  induction K generalizing M with
  | nil => exact ⟨[], M, rfl, .nil, h⟩
  | cons slot K ih =>
    cases slot with
    | shared x y v =>
      cases h with
      | shared _ _ _ w h =>
        obtain ⟨K', L', rfl, hK, hL⟩ := ih h
        exact ⟨.shared x y w :: K', L', rfl, .shared x y v w hK, hL⟩
    | hidden y v =>
      cases h with
      | hidden _ _ h =>
        obtain ⟨K', L', rfl, hK, hL⟩ := ih h
        exact ⟨.hidden y v :: K', L', rfl, .hidden y v hK, hL⟩

/-! ## Finding a variable -/

/-- The tree's name `x` and the code's name `y` find the same slot, or neither
finds one. -/
def Linked (x y : String) : Frame → Prop
  | [] => True
  | .shared x' y' _ :: K => x' = x ∧ y' = y ∨ x' ≠ x ∧ y' ≠ y ∧ Linked x y K
  | .hidden y' _ :: K => y' ≠ y ∧ Linked x y K

theorem Linked.read {x y : String} {K : Frame} (h : Linked x y K) :
    K.target.read y = K.source.read x := by
  unfold Locals.read
  suffices hlookup : K.target.lookup y = K.source.lookup x by rw [hlookup]
  induction K with
  | nil => rfl
  | cons slot K ih =>
    cases slot with
    | shared x' y' v =>
      rcases h with ⟨rfl, rfl⟩ | ⟨hx, hy, h⟩
      · simp [source, target]
      · simp only [source, target, List.lookup_cons]
        rw [beq_false_of_ne (Ne.symm hx), beq_false_of_ne (Ne.symm hy)]
        exact ih h
    | hidden y' v =>
      simp only [source, target, List.lookup_cons]
      rw [beq_false_of_ne (Ne.symm h.1)]
      exact ih h.2

/-- Writing the slot that both names find. -/
theorem Linked.write {x y : String} {K : Frame} (h : Linked x y K) (v : Value) :
    K.source.write? x v = none ∧ K.target.write? y v = none ∨
      ∃ L, Same K L ∧ K.source.write? x v = some L.source ∧
        K.target.write? y v = some L.target := by
  induction K with
  | nil => exact .inl ⟨rfl, rfl⟩
  | cons slot K ih =>
    cases slot with
    | shared x' y' w =>
      rcases h with ⟨rfl, rfl⟩ | ⟨hx, hy, h⟩
      · refine .inr ⟨.shared x' y' v :: K, .shared x' y' w v (.refl K), ?_, ?_⟩ <;>
          simp [source, target, Locals.write?]
      · rcases ih h with ⟨hs, ht⟩ | ⟨L, hsame, hs, ht⟩
        · exact .inl (by simp [source, target, Locals.write?, hx, hy, hs, ht])
        · exact .inr ⟨.shared x' y' w :: L, .shared x' y' w w hsame,
            by simp [source, target, Locals.write?, hx, hy, hs, ht]⟩
    | hidden y' w =>
      rcases ih h.2 with ⟨hs, ht⟩ | ⟨L, hsame, hs, ht⟩
      · exact .inl (by simp [source, target, Locals.write?, h.1, hs, ht])
      · exact .inr ⟨.hidden y' w :: L, .hidden y' w hsame,
          by simp [source, target, Locals.write?, h.1, hs, ht]⟩

theorem Linked.same {x y : String} {K L : Frame} (h : Linked x y K) (hs : Same K L) :
    Linked x y L := by
  induction hs with
  | nil => exact h
  | shared _ _ _ _ _ ih => exact h.imp id (fun h => ⟨h.1, h.2.1, ih h.2.2⟩)
  | hidden _ _ _ ih => exact ⟨h.1, ih h.2⟩

/-! ## A hidden slot of its own -/

/-- No slot has the name. -/
def Free (y : String) (K : Frame) : Prop := ∀ slot ∈ K, slot.target ≠ y

/-- One slot has the name, and it is hidden. -/
def Alone (y : String) : Frame → Prop
  | [] => False
  | .shared _ y' _ :: K => y' ≠ y ∧ Alone y K
  | .hidden y' _ :: K => y' = y ∧ Free y K ∨ y' ≠ y ∧ Alone y K

/-- Sets the hidden slots of a name. -/
def put (y : String) (v : Value) : Frame → Frame
  | [] => []
  | .shared x y' w :: K => .shared x y' w :: put y v K
  | .hidden y' w :: K => .hidden y' (if y' = y then v else w) :: put y v K

theorem put_append (y : String) (v : Value) (K L : Frame) :
    put y v (K ++ L) = put y v K ++ put y v L := by
  induction K with
  | nil => rfl
  | cons slot K ih => cases slot <;> simp [put, ih]

theorem source_put (y : String) (v : Value) (K : Frame) : (put y v K).source = K.source := by
  induction K with
  | nil => rfl
  | cons slot K ih => cases slot <;> simp [put, source, ih]

theorem length_target_put (y : String) (v : Value) (K : Frame) :
    (put y v K).target.length = K.target.length := by
  induction K with
  | nil => rfl
  | cons slot K ih => cases slot <;> simp [put, target, ih]

theorem put_of_free {y : String} (v : Value) {K : Frame} (h : Free y K) : put y v K = K := by
  induction K with
  | nil => rfl
  | cons slot K ih =>
    have hrest := ih (fun slot hmem => h slot (List.mem_cons_of_mem _ hmem))
    cases slot with
    | shared x y' w => simp [put, hrest]
    | hidden y' w =>
      have hne : y' ≠ y := h _ List.mem_cons_self
      simp [put, hrest, hne]

theorem Same.put {K L : Frame} (h : Same K L) (y : String) (v : Value) :
    Same (K.put y v) (L.put y v) := by
  induction h with
  | nil => exact .nil
  | shared x y' w u _ ih => exact .shared x y' w u ih
  | hidden y' w _ ih => exact .hidden y' _ ih

/-- Writing a hidden slot of its own. -/
theorem Alone.write {y : String} {K : Frame} (h : Alone y K) (v : Value) :
    K.target.write? y v = some (K.put y v).target := by
  induction K with
  | nil => exact h.elim
  | cons slot K ih =>
    cases slot with
    | shared x y' w => simp [target, Locals.write?, Frame.put, h.1, ih h.2]
    | hidden y' w =>
      rcases h with ⟨rfl, hfree⟩ | ⟨hne, h⟩
      · simp [target, Locals.write?, Frame.put, put_of_free v hfree]
      · simp [target, Locals.write?, Frame.put, hne, ih h]

theorem Free.same {y : String} {K L : Frame} (h : Free y K) (hs : Same K L) : Free y L := by
  intro slot hmem
  have hname : slot.target ∈ K.map Slot.target := hs.targets ▸ List.mem_map_of_mem hmem
  obtain ⟨slot', hmem', heq⟩ := List.mem_map.mp hname
  exact heq ▸ h slot' hmem'

theorem Alone.same {y : String} {K L : Frame} (h : Alone y K) (hs : Same K L) : Alone y L := by
  induction hs with
  | nil => exact h
  | shared _ _ _ _ _ ih => exact ⟨h.1, ih h.2⟩
  | hidden _ _ hs ih => exact h.imp (fun h => ⟨h.1, h.2.same hs⟩) (fun h => ⟨h.1, ih h.2⟩)

theorem Alone.mem {y : String} {K : Frame} (h : Alone y K) : ∃ slot ∈ K, slot.target = y := by
  induction K with
  | nil => exact h.elim
  | cons slot K ih =>
    have hlater : Alone y K → ∃ slot' ∈ slot :: K, slot'.target = y := fun h => by
      obtain ⟨slot', hmem, heq⟩ := ih h
      exact ⟨slot', List.mem_cons_of_mem _ hmem, heq⟩
    cases slot with
    | shared _ _ _ => exact hlater h.2
    | hidden y' w =>
      rcases h with ⟨rfl, _⟩ | ⟨_, h⟩
      · exact ⟨_, List.mem_cons_self, rfl⟩
      · exact hlater h

end Frame

/-! ## Names that are drawn on the way -/

/-- The synthetic name is drawn on the way from one state to another. -/
structure Drawn (s : LowerState) (y : String) (s' : LowerState) : Prop where
  follows : s.Follows s'
  new : ¬ Older s.names.next y
  below : SyntheticBelow s'.names.next y

namespace Drawn

variable {s t s' : LowerState} {base y : String}

theorem fresh (h : Lowering.Yields (Lowering.fresh base) s y s') : Drawn s y s' := by
  have hfollows := LowerState.Follows.fresh h
  obtain ⟨rfl, rfl⟩ := Lowering.yields_fresh.mp h
  exact ⟨hfollows, not_older_synthetic base s.names.next,
    base, s.names.next, Nat.lt_succ_self _, rfl⟩

theorem before (h : s.Follows t) (hy : Drawn t y s') : Drawn s y s' :=
  ⟨h.trans hy.follows, fun hold => hy.new (hold.mono h.next), hy.below⟩

theorem after (hy : Drawn s y t) (h : t.Follows s') : Drawn s y s' :=
  ⟨hy.follows.trans h, hy.new, hy.below.mono h.next⟩

end Drawn

/-! ## Frames that fit a state of the lowering -/

open TreeLowering.Behaviour.Frame

/-- The frame fits a state of the lowering. -/
structure Fits (s : LowerState) (K : Frame) : Prop where
  /-- A source name finds the same slot as what it stands for. -/
  linked : ∀ x, Plain x → Linked x (s.names.resolve x) K
  /-- What names stand for is synthetic. -/
  replaced : ∀ x y, s.names.find? x = some y → SyntheticBelow s.names.next y
  /-- No slot has a name that is still to be drawn. -/
  slots : ∀ slot ∈ K, Older s.names.next slot.target
  /-- The guard of the loop around is a slot of its own. -/
  guard : ∀ g, s.loopGuard = some g → ¬ Plain g ∧ Alone g K

namespace Fits

variable {s s' : LowerState} {K L : Frame} {x y : String} {v : Value}

theorem resolve_older (h : Fits s K) (hx : Plain x) : Older s.names.next (s.names.resolve x) := by
  unfold NameScope.resolve
  cases hfind : s.names.find? x with
  | none => exact .inl hx
  | some y => exact .inr (h.replaced x y hfind)

theorem read (h : Fits s K) (hx : Plain x) :
    K.target.read (s.names.resolve x) = K.source.read x :=
  (h.linked x hx).read

theorem follows (h : Fits s K) (hs : s.Follows s') : Fits s' K where
  linked x hx := hs.resolve x ▸ h.linked x hx
  replaced x y hfind := (h.replaced x y (hs.find x ▸ hfind)).mono hs.next
  slots slot hmem := (h.slots slot hmem).mono hs.next
  guard g hg := h.guard g (hs.guard ▸ hg)

theorem same (h : Fits s K) (hs : Same K L) : Fits s L where
  linked x hx := (h.linked x hx).same hs
  replaced := h.replaced
  slots slot hmem := by
    have hname : slot.target ∈ K.map Slot.target := hs.targets ▸ List.mem_map_of_mem hmem
    obtain ⟨slot', hmem', heq⟩ := List.mem_map.mp hname
    exact heq ▸ h.slots slot' hmem'
  guard g hg := ⟨(h.guard g hg).1, (h.guard g hg).2.same hs⟩

/-- A name that is still to be drawn is free. -/
theorem free (h : Fits s K) (hy : ¬ Older s.names.next y) : Free y K := by
  intro slot hmem heq
  exact hy (heq ▸ h.slots slot hmem)

theorem guard_ne (h : Fits s K) (hy : ¬ Older s.names.next y) {g : String}
    (hg : s.loopGuard = some g) : y ≠ g := by
  rintro rfl
  obtain ⟨slot, hmem, heq⟩ := (h.guard y hg).2.mem
  exact h.free hy slot hmem heq

/-- A hidden slot under a new name. -/
theorem hide (h : Fits s K) (hy : Drawn s y s') (v : Value) : Fits s' (.hidden y v :: K) := by
  have hK := h.follows hy.follows
  refine ⟨fun x hx => ⟨?_, hK.linked x hx⟩, hK.replaced, ?_, ?_⟩
  · rw [hy.follows.resolve x]
    rintro rfl
    exact hy.new (h.resolve_older hx)
  · intro slot hmem
    rcases List.mem_cons.mp hmem with rfl | hmem
    · exact .inr hy.below
    · exact hK.slots slot hmem
  · intro g hg
    have hg' : s.loopGuard = some g := hy.follows.guard ▸ hg
    exact ⟨(h.guard g hg').1, .inr ⟨h.guard_ne hy.new hg', (h.guard g hg').2⟩⟩

/-- A variable of the tree under its own name. -/
theorem declare (h : Fits s K) (hx : Plain x) (hfree : s.names.find? x = none) (v : Value) :
    Fits s (.shared x x v :: K) := by
  refine ⟨fun z hz => ?_, h.replaced, ?_, ?_⟩
  · by_cases hzx : x = z
    · subst hzx
      exact .inl ⟨rfl, by simp [NameScope.resolve, hfree]⟩
    · refine .inr ⟨hzx, ?_, h.linked z hz⟩
      unfold NameScope.resolve
      cases hfind : s.names.find? z with
      | none => exact hzx
      | some w =>
        rintro rfl
        exact (h.replaced z _ hfind).not_plain hx
  · intro slot hmem
    rcases List.mem_cons.mp hmem with rfl | hmem
    · exact .inl hx
    · exact h.slots slot hmem
  · intro g hg
    refine ⟨(h.guard g hg).1, ?_, (h.guard g hg).2⟩
    rintro rfl
    exact (h.guard _ hg).1 hx

/-- A variable of the tree under a new name that its name now stands for. -/
theorem narrow (h : Fits s K) (hy : Drawn s y s') (v : Value) :
    Fits { s' with names := (s'.names.replace x y).2 } (.shared x y v :: K) := by
  have hK := h.follows hy.follows
  have hfind : ∀ z, (s'.names.replace x y).2.find? z = if z = x then some y else s'.names.find? z :=
    fun z => NameScope.find?_set s'.names x z (some y)
  have hnext : (s'.names.replace x y).2.next = s'.names.next := rfl
  refine ⟨fun z hz => ?_, fun z w hw => ?_, ?_, ?_⟩
  · by_cases hzx : x = z
    · subst hzx
      exact .inl ⟨rfl, by simp [NameScope.resolve, hfind]⟩
    · have hresolve : (s'.names.replace x y).2.resolve z = s'.names.resolve z := by
        simp only [NameScope.resolve, hfind, if_neg (Ne.symm hzx)]
      refine .inr ⟨hzx, ?_, ?_⟩
      · show y ≠ (s'.names.replace x y).2.resolve z
        rw [hresolve, hy.follows.resolve z]
        rintro rfl
        exact hy.new (h.resolve_older hz)
      · show Linked z ((s'.names.replace x y).2.resolve z) K
        rw [hresolve]
        exact hK.linked z hz
  · show SyntheticBelow (s'.names.replace x y).2.next w
    rw [hnext]
    have hw' : (if z = x then some y else s'.names.find? z) = some w := hfind z ▸ hw
    split at hw'
    · cases hw'
      exact hy.below
    · exact hK.replaced z w hw'
  · intro slot hmem
    show Older (s'.names.replace x y).2.next slot.target
    rw [hnext]
    rcases List.mem_cons.mp hmem with rfl | hmem
    · exact .inr hy.below
    · exact hK.slots slot hmem
  · intro g hg
    have hg' : s.loopGuard = some g := hy.follows.guard ▸ hg
    exact ⟨(h.guard g hg').1, h.guard_ne hy.new hg', (h.guard g hg').2⟩

/-- Without a loop around. -/
theorem unguarded (h : Fits s K) : Fits { s with loopGuard := none } K :=
  ⟨h.linked, h.replaced, h.slots, fun _ hg => by contradiction⟩

/-- With a loop around whose guard is a new slot. -/
theorem guarded (h : Fits s K) (hy : Drawn s y s') (v : Value) :
    Fits { s' with loopGuard := some y } (.hidden y v :: K) := by
  have hK := h.hide hy v
  refine ⟨hK.linked, hK.replaced, hK.slots, fun g hg => ?_⟩
  cases hg
  exact ⟨hy.below.not_plain, .inl ⟨rfl, h.free hy.new⟩⟩

end Fits

end TreeLowering.Behaviour
