import TreeLowering.Source.Interner
import Mathlib.Data.List.Dedup
import Mathlib.Data.List.Perm.Subperm
set_option autoImplicit false

/-!
# Proofs: runs of an interner

An interner is asked for the names of texts and for the texts of names.  Every
request leaves its two tables inverse to each other and leaves each name its
text.  So along every run that does not use up the names, the names handed out
are the numbers below the size, and they correspond one to one to the texts that
were asked about.
-/

namespace TreeLowering

/-! ## States of a run -/

section States

variable {σ ρ : Type} {serve : σ → ρ → σ} {start : σ} {rs : List ρ} {q : ρ} {i j : Nat}

/-- The state after the first `i` requests of a run. -/
def stateAt (serve : σ → ρ → σ) (start : σ) (rs : List ρ) (i : Nat) : σ :=
  (rs.take i).foldl serve start

theorem stateAt_succ (h : rs[i]? = some q) :
    stateAt serve start rs (i + 1) = serve (stateAt serve start rs i) q := by
  unfold stateAt
  rw [List.take_add_one, h, List.foldl_append]
  rfl

theorem stateAt_succ_of_none (h : rs[i]? = none) :
    stateAt serve start rs (i + 1) = stateAt serve start rs i := by
  unfold stateAt
  rw [List.take_add_one, h, Option.toList_none, List.append_nil]

/-- What holds at the start and is kept by every request holds at each point. -/
theorem stateAt_induction {P : σ → Prop} (hstart : P start) (hserve : ∀ s q, P s → P (serve s q))
    (i : Nat) : P (stateAt serve start rs i) := by
  unfold stateAt
  generalize rs.take i = done
  induction done generalizing start with
  | nil => exact hstart
  | cons q done ih => exact ih (hserve start q hstart)

/-- What every request leads to, a whole stretch of a run leads to. -/
theorem stateAt_mono {R : σ → σ → Prop} (hrefl : ∀ s, R s s)
    (htrans : ∀ {a b c}, R a b → R b c → R a c) (hserve : ∀ s q, R s (serve s q)) (h : i ≤ j) :
    R (stateAt serve start rs i) (stateAt serve start rs j) := by
  induction h with
  | refl => exact hrefl _
  | @step j _ ih =>
    cases hq : rs[j]? with
    | some q =>
      rw [stateAt_succ hq]
      exact htrans ih (hserve _ q)
    | none =>
      rw [stateAt_succ_of_none hq]
      exact ih

end States

/-- What an interner is asked for. -/
inductive InternerRequest where
  /-- The name of a text. -/
  | intern (text : String)
  /-- The text of a name. -/
  | lookup (name : Name)
  deriving DecidableEq, Repr

namespace Interner

variable {t u v : Interner} {r s : String} {n m : Name}

/-! ## The two tables -/

/-- The text is stored under the name. -/
def Stores (t : Interner) (n : Name) (s : String) : Prop := t.texts[n.index]? = some s

/-- Each table says what the other one says. -/
def Inverse (t : Interner) : Prop := ∀ s n, t.find? s = some n ↔ t.Stores n s

/-- The tables are inverse to each other, and the empty text has the first
name. -/
structure Sound (t : Interner) : Prop where
  inverse : t.Inverse
  empty : t.Stores .empty ""

/-- Every name keeps its text. -/
def Within (t u : Interner) : Prop := ∀ n s, t.Stores n s → u.Stores n s

theorem Stores.lt (h : t.Stores n s) : n.index < t.size :=
  (Array.getElem?_eq_some_iff.mp h).1

theorem Stores.lookup (h : t.Stores n s) : t.lookup n = s := by
  unfold Interner.lookup
  rw [show t.texts[n.index]? = some s from h]
  rfl

theorem stores_lookup (h : n.index < t.size) : t.Stores n (t.lookup n) := by
  have hat : t.texts[n.index]? = some t.texts[n.index] := Array.getElem?_eq_getElem h
  unfold Stores Interner.lookup
  rw [hat]
  rfl

theorem lookup_of_le (h : t.size ≤ n.index) : t.lookup n = "" := by
  unfold lookup
  rw [Array.getElem?_eq_none h]
  rfl

theorem Sound.find?_inj (h : t.Sound) (hs : t.find? s = some n) (hr : t.find? r = some n) :
    s = r :=
  ((h.inverse s n).mp hs).lookup.symm.trans ((h.inverse r n).mp hr).lookup

theorem Sound.find?_empty (h : t.Sound) : t.find? "" = some .empty :=
  (h.inverse "" .empty).mpr h.empty

theorem Sound.lookup_inj (h : t.Sound) (hn : n.index < t.size) (hm : m.index < t.size)
    (heq : t.lookup n = t.lookup m) : n = m := by
  have hfound := (h.inverse _ n).mpr (stores_lookup hn)
  rw [heq, (h.inverse _ m).mpr (stores_lookup hm)] at hfound
  exact (Option.some.inj hfound).symm

theorem Within.refl (t : Interner) : t.Within t := fun _ _ h => h

theorem Within.trans (h : t.Within u) (hv : u.Within v) : t.Within v :=
  fun n s hs => hv n s (h n s hs)

theorem Within.find? (h : t.Within u) (ht : t.Sound) (hu : u.Sound) (hs : t.find? s = some n) :
    u.find? s = some n :=
  (hu.inverse s n).mpr (h n s ((ht.inverse s n).mp hs))

theorem Within.lookup (h : t.Within u) (hn : n.index < t.size) : u.lookup n = t.lookup n :=
  (h n _ (stores_lookup hn)).lookup

/-- Different names have different texts. -/
theorem Sound.nodup (h : t.Sound) : t.texts.toList.Nodup := by
  rw [List.nodup_iff_getElem?_ne_getElem?]
  intro i j hij hj heq
  obtain ⟨s, hs⟩ : ∃ s, t.texts.toList[j]? = some s := ⟨_, List.getElem?_eq_getElem hj⟩
  have hi : t.Stores ⟨i⟩ s := (Array.getElem?_toList ..).symm.trans (heq.trans hs)
  have hj : t.Stores ⟨j⟩ s := (Array.getElem?_toList ..).symm.trans hs
  have hsame := ((h.inverse s ⟨i⟩).mpr hi).symm.trans ((h.inverse s ⟨j⟩).mpr hj)
  simp only [Option.some.injEq, Name.mk.injEq] at hsame
  exact absurd hsame (Nat.ne_of_lt hij)

/-! ## Storing a text -/

theorem find?_add (t : Interner) (s : String) (n : Name) (r : String) :
    (t.add s n).find? r = if r = s then some n else t.find? r :=
  Assoc.lookup_set s r n t.names

theorem stores_add : (t.add s m).Stores n r ↔ if n.index = t.size then s = r else t.Stores n r := by
  unfold Stores add
  rw [Array.getElem?_push]
  split
  · rw [if_pos (by assumption), Option.some_inj]
  · rw [if_neg (by assumption)]

theorem size_add (t : Interner) (s : String) (n : Name) : (t.add s n).size = t.size + 1 :=
  Array.size_push s

theorem within_add (t : Interner) (s : String) (m : Name) : t.Within (t.add s m) := by
  intro n r h
  rw [stores_add, if_neg (Nat.ne_of_lt h.lt)]
  exact h

theorem Inverse.add (h : t.Inverse) (hs : t.find? s = none) : (t.add s ⟨t.size⟩).Inverse := by
  intro r n
  rw [find?_add, stores_add]
  by_cases hn : n.index = t.size
  · -- nothing is stored under the next name yet, so only the new text has it
    have hfree : t.find? r ≠ some n := fun hr => absurd hn (Nat.ne_of_lt ((h r n).mp hr).lt)
    have hname : (⟨t.size⟩ : Name) = n := congrArg Name.mk hn.symm
    rw [if_pos hn, hname]
    split
    · next heq => exact iff_of_true rfl heq.symm
    · next hne => exact iff_of_false hfree (Ne.symm hne)
  · rw [if_neg hn, ← h r n]
    split
    · next heq =>
      rw [heq, hs]
      refine iff_of_false (fun hnew => hn ?_) nofun
      exact (congrArg Name.index (Option.some.inj hnew)).symm
    · exact Iff.rfl

theorem Sound.add (h : t.Sound) (hs : t.find? s = none) : (t.add s ⟨t.size⟩).Sound :=
  ⟨h.inverse.add hs, within_add t s _ _ _ h.empty⟩

theorem sound_new : new.Sound where
  inverse := by
    -- the new interner is a blank one in which the empty text was stored
    have hblank : (⟨#[], []⟩ : Interner).Inverse := fun s n => iff_of_false nofun nofun
    exact hblank.add rfl
  empty := rfl

/-! ## Naming a text -/

/-- A caller that missed a text before and has the table alone now does what it
would do if it looked only now. -/
theorem tryIntern_eq_give (t : Interner) (s : String) : t.tryIntern s = t.give s := by
  unfold tryIntern give
  split <;> simp_all

/-- A text is known, or it is stored under the next name, or no name is left. -/
theorem tryIntern_cases (t : Interner) (s : String) :
    (∃ n, t.find? s = some n ∧ t.tryIntern s = (.ok n, t)) ∨
      (t.find? s = none ∧ t.size < Name.count ∧
        t.tryIntern s = (.ok ⟨t.size⟩, t.add s ⟨t.size⟩)) ∨
      (t.find? s = none ∧ Name.count ≤ t.size ∧
        t.tryIntern s = (.error (.overflow t.size), t)) := by
  rw [tryIntern_eq_give]
  unfold give
  cases hfound : t.find? s with
  | some n => exact .inl ⟨n, rfl, rfl⟩
  | none =>
    by_cases hleft : t.size < Name.count
    · exact .inr (.inl ⟨rfl, hleft, by simp [Name.next?, hleft]⟩)
    · exact .inr (.inr ⟨rfl, Nat.le_of_not_lt hleft, by simp [Name.next?, hleft]⟩)

/-- Only a text that is not known changes the tables. -/
theorem tables_of_tryIntern (t : Interner) (s : String) :
    (t.tryIntern s).2 = t ∨ (t.find? s = none ∧ (t.tryIntern s).2 = t.add s ⟨t.size⟩) := by
  obtain ⟨_, _, hintern⟩ | ⟨hnew, _, hintern⟩ | ⟨_, _, hintern⟩ := t.tryIntern_cases s
  · exact .inl (by rw [hintern])
  · exact .inr ⟨hnew, by rw [hintern]⟩
  · exact .inl (by rw [hintern])

theorem Sound.tryIntern (h : t.Sound) (s : String) : (t.tryIntern s).2.Sound := by
  obtain hsame | ⟨hnew, hadd⟩ := t.tables_of_tryIntern s
  · rwa [hsame]
  · rw [hadd]
    exact h.add hnew

theorem within_tryIntern (t : Interner) (s : String) : t.Within (t.tryIntern s).2 := by
  obtain hsame | ⟨_, hadd⟩ := t.tables_of_tryIntern s
  · rw [hsame]
    exact .refl t
  · rw [hadd]
    exact within_add t s _

/-- The name that is returned is the text's from now on. -/
theorem find?_of_tryIntern (h : (t.tryIntern s).1 = .ok n) :
    (t.tryIntern s).2.find? s = some n := by
  obtain ⟨k, hknown, hintern⟩ | ⟨_, _, hintern⟩ | ⟨_, _, hintern⟩ := t.tryIntern_cases s
  · rw [hintern] at h ⊢
    cases h
    exact hknown
  · rw [hintern] at h ⊢
    cases h
    rw [find?_add, if_pos rfl]
  · rw [hintern] at h
    contradiction

/-- A name is returned unless none is left. -/
theorem exists_tryIntern (h : t.size < Name.count) (s : String) :
    ∃ n, (t.tryIntern s).1 = .ok n := by
  obtain ⟨n, _, hintern⟩ | ⟨_, _, hintern⟩ | ⟨_, hfull, _⟩ := t.tryIntern_cases s
  · exact ⟨n, by rw [hintern]⟩
  · exact ⟨_, by rw [hintern]⟩
  · exact absurd h (Nat.not_lt_of_le hfull)

theorem intern_of_tryIntern (h : (t.tryIntern s).1 = .ok n) :
    t.intern s = (n, (t.tryIntern s).2) := by
  unfold intern
  generalize t.tryIntern s = out at h ⊢
  obtain ⟨_, _⟩ := out
  subst h
  rfl

/-! ## Runs -/

/-- The interner after a request. -/
def serve (t : Interner) : InternerRequest → Interner
  | .intern s => (t.tryIntern s).2
  | .lookup _ => t

/-- A new interner after the first `i` requests of a run. -/
def reached (rs : List InternerRequest) (i : Nat) : Interner := stateAt serve new rs i

/-- The texts that a run asks the names of, in order. -/
def asked (rs : List InternerRequest) : List String :=
  rs.filterMap fun
    | .intern s => some s
    | .lookup _ => none

variable {rs : List InternerRequest} {q : InternerRequest} {i j : Nat}

theorem reached_succ (h : rs[i]? = some q) : reached rs (i + 1) = (reached rs i).serve q :=
  stateAt_succ h

theorem Sound.serve (h : t.Sound) (q : InternerRequest) : (t.serve q).Sound := by
  cases q with
  | intern s => exact h.tryIntern s
  | lookup n => exact h

theorem within_serve (t : Interner) (q : InternerRequest) : t.Within (t.serve q) := by
  cases q with
  | intern s => exact within_tryIntern t s
  | lookup n => exact .refl t

theorem sound_reached (rs : List InternerRequest) (i : Nat) : (reached rs i).Sound :=
  stateAt_induction (P := Sound) sound_new (fun _ q h => h.serve q) i

theorem within_reached (h : i ≤ j) : (reached rs i).Within (reached rs j) :=
  stateAt_mono Within.refl Within.trans within_serve h

/-! ## The names that a run hands out -/

/-- The request at position `i` asks for the name of `s`, and `n` is returned. -/
def Named (rs : List InternerRequest) (i : Nat) (s : String) (n : Name) : Prop :=
  rs[i]? = some (.intern s) ∧ ((reached rs i).tryIntern s).1 = .ok n

/-- The name is that of the empty text, or it was returned before position `j`. -/
def HandedOut (rs : List InternerRequest) (j : Nat) (n : Name) : Prop :=
  n = .empty ∨ ∃ i < j, ∃ s, Named rs i s n

theorem Named.find? (h : Named rs i s n) (hij : i < j) : (reached rs j).find? s = some n := by
  have hnext : (reached rs (i + 1)).find? s = some n := by
    rw [reached_succ h.1]
    exact find?_of_tryIntern h.2
  exact (within_reached hij).find? (sound_reached rs _) (sound_reached rs _) hnext

theorem Named.stores (h : Named rs i s n) (hij : i < j) : (reached rs j).Stores n s :=
  ((sound_reached rs j).inverse s n).mp (h.find? hij)

theorem Named.eq_iff (hs : Named rs i s n) (hr : Named rs j r m) : n = m ↔ s = r := by
  have hfirst := hs.find? (Nat.lt_succ_of_le (Nat.le_max_left i j))
  have hsecond := hr.find? (Nat.lt_succ_of_le (Nat.le_max_right i j))
  constructor
  · rintro rfl
    exact (sound_reached rs _).find?_inj hfirst hsecond
  · rintro rfl
    exact Option.some.inj (hfirst.symm.trans hsecond)

theorem HandedOut.mono (h : HandedOut rs i n) (hij : i ≤ j) : HandedOut rs j n :=
  h.imp_right fun ⟨k, hk, hnamed⟩ => ⟨k, Nat.lt_of_lt_of_le hk hij, hnamed⟩

theorem HandedOut.lt (h : HandedOut rs j n) : n.index < (reached rs j).size := by
  obtain rfl | ⟨i, hij, s, hnamed⟩ := h
  · exact (sound_reached rs j).empty.lt
  · exact (hnamed.stores hij).lt

/-- The names below the size are those handed out. -/
theorem handedOut_of_lt (h : n.index < (reached rs j).size) : HandedOut rs j n := by
  induction j with
  | zero => exact .inl (congrArg Name.mk (Nat.lt_one_iff.mp h))
  | succ j ih =>
    have hold : n.index < (reached rs j).size → HandedOut rs (j + 1) n := fun hlt =>
      (ih hlt).mono (Nat.le_succ j)
    cases hq : rs[j]? with
    | none => exact hold (by rwa [reached, stateAt_succ_of_none hq] at h)
    | some q =>
      rw [reached_succ hq] at h
      cases q with
      | lookup m => exact hold h
      | intern s =>
        obtain ⟨m, _, hintern⟩ | ⟨_, _, hintern⟩ | ⟨_, _, hintern⟩ :=
          (reached rs j).tryIntern_cases s
        · exact hold (by rwa [serve, hintern] at h)
        · rw [serve, hintern, size_add] at h
          obtain hlt | hlast := Nat.lt_succ_iff_lt_or_eq.mp h
          · exact hold hlt
          · refine .inr ⟨j, Nat.lt_succ_self j, s, hq, ?_⟩
            rw [hintern, ← hlast]
        · exact hold (by rwa [serve, hintern] at h)

/-- Only what was asked about has a name, the empty text apart. -/
theorem asked_of_find? (h : (reached rs j).find? s = some n) :
    s = "" ∨ .intern s ∈ rs.take j := by
  have hsound := sound_reached rs j
  obtain rfl | ⟨i, hij, r, hnamed⟩ := handedOut_of_lt ((hsound.inverse s n).mp h).lt
  · exact .inl (hsound.find?_inj h hsound.find?_empty)
  · obtain rfl := hsound.find?_inj h (hnamed.find? hij)
    refine .inr (List.mem_of_getElem? (i := i) ?_)
    rw [List.getElem?_take_of_lt hij]
    exact hnamed.1

theorem mem_asked (h : .intern s ∈ rs) : s ∈ asked rs :=
  List.mem_filterMap.mpr ⟨.intern s, h, rfl⟩

/-! ## Runs that do not use up the names -/

/-- A table that lacks a text stores no more texts than there are others. -/
theorem Sound.size_le {all : List String} (h : t.Sound) (hs : t.find? s = none) (hmem : s ∈ all)
    (hall : ∀ r n, t.find? r = some n → r = "" ∨ r ∈ all) : t.size ≤ all.dedup.length := by
  have hfound : ∀ r ∈ t.texts.toList, ∃ n, t.find? r = some n := fun r hr => by
    obtain ⟨i, hi⟩ := List.mem_iff_getElem?.mp hr
    exact ⟨⟨i⟩, (h.inverse r ⟨i⟩).mpr ((Array.getElem?_toList ..).symm.trans hi)⟩
  have hnodup : (s :: t.texts.toList).Nodup := by
    refine List.nodup_cons.mpr ⟨fun hstored => ?_, h.nodup⟩
    obtain ⟨n, hn⟩ := hfound s hstored
    rw [hs] at hn
    contradiction
  have hsub : s :: t.texts.toList ⊆ "" :: all.dedup := by
    intro r hr
    obtain rfl | hr := List.mem_cons.mp hr
    · exact List.mem_cons_of_mem _ (List.mem_dedup.mpr hmem)
    · obtain ⟨n, hn⟩ := hfound r hr
      obtain rfl | hr := hall r n hn
      · exact List.mem_cons_self
      · exact List.mem_cons_of_mem _ (List.mem_dedup.mpr hr)
  exact Nat.le_of_succ_le_succ (hnodup.subperm hsub).length_le

/-- While there are names left, every text that is asked about gets one. -/
theorem exists_named (hfew : (asked rs).dedup.length < Name.count)
    (hq : rs[i]? = some (.intern s)) : ∃ n, Named rs i s n := by
  cases hknown : (reached rs i).find? s with
  | some n => exact ⟨n, hq, by rw [tryIntern, hknown]⟩
  | none =>
    have hsize : (reached rs i).size ≤ (asked rs).dedup.length := by
      refine (sound_reached rs i).size_le hknown (mem_asked (List.mem_of_getElem? hq)) ?_
      exact fun r n hr => (asked_of_find? hr).imp_right fun hbefore =>
        mem_asked (List.mem_of_mem_take hbefore)
    obtain ⟨n, hn⟩ := exists_tryIntern (Nat.lt_of_le_of_lt hsize hfew) s
    exact ⟨n, hq, hn⟩

/-- What a run of an interner shows of the names and the texts. -/
structure NamesTexts (rs : List InternerRequest) : Prop where
  /-- Every request for a name returns one, and there is no error to pass on. -/
  returns : ∀ i s, rs[i]? = some (.intern s) →
    ∃ n, Named rs i s n ∧ (reached rs i).intern s = (n, reached rs (i + 1))
  /-- Wherever in the run two texts are named, the names are the same exactly when
  the texts are. -/
  named : ∀ i j s r n m, Named rs i s n → Named rs j r m → (n = m ↔ s = r)
  /-- A name reads as its text ever after. -/
  reads : ∀ i j s n, Named rs i s n → i < j → (reached rs j).lookup n = s
  /-- At each point the names handed out are those below the size. -/
  handedOut : ∀ j n, n.index < (reached rs j).size ↔ HandedOut rs j n
  /-- The empty text has the first name, also when it is asked about. -/
  empty : (∀ j, (reached rs j).lookup .empty = "") ∧ ∀ i n, Named rs i "" n → n = .empty
  /-- To name a text that is known leaves the size as it is. -/
  known : ∀ i s, rs[i]? = some (.intern s) → s = "" ∨ .intern s ∈ rs.take i →
    (reached rs (i + 1)).size = (reached rs i).size
  /-- To name a text that is new makes the size larger by one. -/
  new : ∀ i s, rs[i]? = some (.intern s) → s ≠ "" → .intern s ∉ rs.take i →
    (reached rs (i + 1)).size = (reached rs i).size + 1
  /-- At each point a name that was not handed out reads as the empty text. -/
  other : ∀ j n, ¬ HandedOut rs j n → (reached rs j).lookup n = ""

/-- A text that was asked about has a name. -/
theorem find?_of_asked (hfew : (asked rs).dedup.length < Name.count)
    (h : s = "" ∨ .intern s ∈ rs.take i) : ∃ n, (reached rs i).find? s = some n := by
  obtain rfl | hmem := h
  · exact ⟨.empty, (sound_reached rs i).find?_empty⟩
  · obtain ⟨k, hk⟩ := List.mem_iff_getElem?.mp hmem
    obtain ⟨hlt, hq⟩ : k < i ∧ rs[k]? = some (.intern s) := by
      rw [List.getElem?_take] at hk
      split at hk
      · exact ⟨by assumption, hk⟩
      · contradiction
    obtain ⟨n, hn⟩ := exists_named hfew hq
    exact ⟨n, hn.find? hlt⟩

/-- In a run of a new interner over fewer than `2 ^ 32` distinct texts, names and
texts correspond one to one: every request for a name is answered, two answers
are the same exactly when the texts are, a name reads as its text ever after, the
names handed out are those from zero up to the size, with zero for the empty
text, a known text leaves the size as it is and a new one makes it larger by one,
and any other name reads as the empty text. -/
theorem namesTexts_of_few (rs : List InternerRequest)
    (hfew : (asked rs).dedup.length < Name.count) : NamesTexts rs where
  returns i s hq := by
    obtain ⟨n, hn⟩ := exists_named hfew hq
    refine ⟨n, hn, ?_⟩
    rw [reached_succ hq]
    exact intern_of_tryIntern hn.2
  named i j s r n m hs hr := hs.eq_iff hr
  reads i j s n hn hij := (hn.stores hij).lookup
  handedOut j n := ⟨handedOut_of_lt, HandedOut.lt⟩
  empty := by
    refine ⟨fun j => (sound_reached rs j).empty.lookup, fun i n hn => ?_⟩
    have hfound := hn.find? (Nat.lt_succ_self i)
    rw [(sound_reached rs _).find?_empty] at hfound
    exact (Option.some.inj hfound).symm
  known i s hq hbefore := by
    obtain ⟨n, hn⟩ := find?_of_asked hfew hbefore
    rw [reached_succ hq, serve, tryIntern, hn]
  new i s hq hempty hbefore := by
    obtain ⟨n, -, hn⟩ := exists_named hfew hq
    rw [reached_succ hq, serve]
    obtain ⟨m, hknown, _⟩ | ⟨_, _, hintern⟩ | ⟨_, _, hintern⟩ := (reached rs i).tryIntern_cases s
    · exact absurd (asked_of_find? hknown) (not_or.mpr ⟨hempty, hbefore⟩)
    · rw [hintern, size_add]
    · rw [hintern] at hn
      contradiction
  other j n hn := lookup_of_le (Nat.le_of_not_lt fun hlt => hn (handedOut_of_lt hlt))

/-- Two texts that are named in turn, the first and the empty one again, and a
name that is read before it is handed out. -/
def repeatedTexts : List InternerRequest :=
  [.intern "head", .lookup ⟨2⟩, .intern "tail", .intern "head", .intern "", .lookup ⟨2⟩]

theorem repeatedTexts_named :
    (asked repeatedTexts).dedup.length < Name.count ∧ NamesTexts repeatedTexts ∧
      (reached repeatedTexts 6).size = 3 ∧ (reached repeatedTexts 6).lookup ⟨2⟩ = "tail" ∧
      (reached repeatedTexts 1).lookup ⟨2⟩ = "" := by
  have hfew : (asked repeatedTexts).dedup.length < Name.count := by decide
  exact ⟨hfew, namesTexts_of_few repeatedTexts hfew, by decide, by decide, by decide⟩

end Interner

end TreeLowering
