import Mathlib.Data.Fintype.Option
import TreeLowering.Proofs.ScopeRun
import TreeLowering.Proofs.Shared.Query
import TreeLowering.Proofs.Yield
import TreeLowering.Shared.State
set_option autoImplicit false

/-!
# Proofs: what a lowering over shared tables tracks

A lowering over tables tracks one among types and texts when, started from states
that stand for each other, it runs out of room, or goes on without end as the other
does, or comes to what the other comes to and leaves states that stand for each
other again.  Each number of the scope is the end of a text of its own, so a scope
that still finds a name has not come round.
-/

namespace TreeLowering.Shared

open Tables Tabled

namespace Tables

variable {t u : Tables}

/-! ## What a state is made of -/

/-- What is odd, in the tables. -/
inductive HasKind (t : Tables) : ProblemKind → TreeLowering.ProblemKind → Prop where
  | missingTypeArgument {i : TypeIdx} {τ : Ty} {n : Name} {x : String} (hi : t.HasTy i τ)
      (hn : t.HasName n x) : HasKind t (.missingTypeArgument i n) (.missingTypeArgument τ x)
  | notIterable {i : TypeIdx} {τ : Ty} (hi : t.HasTy i τ) :
      HasKind t (.notIterable i) (.notIterable τ)
  | notAFunction : HasKind t .notAFunction .notAFunction

/-- The problem in the tables. -/
structure HasProblem (t : Tables) (p : Problem) (P : TreeLowering.Problem) : Prop where
  kind : t.HasKind p.kind P.kind
  span : p.span = P.span

/-- The local in the tables. -/
structure HasLocal (t : Tables) (l : Name × Form) (L : String × Form) : Prop where
  name : t.HasName l.1 L.1
  form : l.2 = L.2

instance : Stays HasKind where
  mono h hu := by
    cases h with
    | missingTypeArgument hi hn => exact .missingTypeArgument (hi.mono hu) (hn.mono hu)
    | notIterable hi => exact .notIterable (hi.mono hu)
    | notAFunction => exact .notAFunction

instance : Stays HasProblem := ⟨fun h hu => ⟨Stays.mono h.kind hu, h.span⟩⟩

instance : Stays HasLocal := ⟨fun h hu => ⟨h.name.mono hu, h.form⟩⟩

theorem Each.append {α β : Type} {S : Tables → α → β → Prop} {as as' : List α} {bs bs' : List β}
    (has : Each S t as bs) (has' : Each S t as' bs') : Each S t (as ++ as') (bs ++ bs') := by
  induction has with
  | nil => exact has'
  | cons hab _ ih => exact .cons hab ih

theorem Each.lookup {n : Name} {x : String} {ls : List (Name × Form)} {Ls : List (String × Form)}
    (hls : Each HasLocal t ls Ls) (ht : t.Sound) (hn : t.HasName n x) :
    ls.lookup n = Ls.lookup x := by
  induction hls with
  | nil => rfl
  | @cons l L ls Ls hl _ ih =>
    obtain ⟨key, form⟩ := l
    obtain ⟨Key, Form⟩ := L
    obtain ⟨hkey, rfl⟩ := hl
    have hsame : (n == key) = (x == Key) := by
      rw [Bool.eq_iff_iff, beq_iff_eq, beq_iff_eq]
      exact hn.eq_iff hkey ht
    rw [List.lookup_cons, List.lookup_cons, hsame, ih]

/-- Each of the first numbers is the end of a stored text. -/
def Drawn (t : Tables) (count : Nat) : Prop :=
  ∀ k < count, ∃ base n, t.HasName n (synthetic base k)

theorem Drawn.mono {count : Nat} (h : t.Drawn count) (hu : t.Within u) : u.Drawn count :=
  fun k hk => (h k hk).imp fun _ => Exists.imp fun _ hn => hn.mono hu

theorem Drawn.succ {count : Nat} {base : String} {n : Name} (h : t.Drawn count)
    (hn : t.HasName n (synthetic base count)) : t.Drawn (count + 1) := by
  intro k hk
  rcases Nat.lt_succ_iff_lt_or_eq.mp hk with hk | rfl
  · exact h k hk
  · exact ⟨base, n, hn⟩

/-- The texts with numbers are all different, and none of them is empty. -/
theorem Drawn.lt {count : Nat} (h : t.Drawn count) (ht : t.Sound) : count < Name.count := by
  choose base n hn using h
  have hname : ∀ k : Option (Fin count), ∃ m, m.index < t.names.size ∧
      t.HasName m (k.elim "" fun k => synthetic (base k k.2) k) := by
    intro k
    cases k with
    | none => exact ⟨.empty, ht.names.empty.lt, ht.names.empty⟩
    | some k => exact ⟨n k k.2, (hn k k.2).lt, hn k k.2⟩
  choose name hlt hname using hname
  have hinj : Function.Injective fun k => (⟨(name k).index, hlt k⟩ : Fin t.names.size) := by
    intro k k' heq
    have hsame : name k = name k' := congrArg Name.mk (Fin.ext_iff.mp heq)
    have htext := ((hname k).eq_iff (hname k') ht).mp hsame
    have hempty : ∀ {base : String} {j : Nat}, "" ≠ synthetic base j := fun heq =>
      not_plain_synthetic _ _ (heq ▸ (by decide : Plain ""))
    cases k with
    | none =>
      cases k' with
      | none => rfl
      | some k' => exact absurd htext hempty
    | some k =>
      cases k' with
      | none => exact absurd htext.symm hempty
      | some k' => exact congrArg some (Fin.ext (synthetic_number_inj htext))
  have hcard := Fintype.card_le_of_injective _ hinj
  rw [Fintype.card_option, Fintype.card_fin, Fintype.card_fin] at hcard
  exact Nat.lt_of_lt_of_le hcard ht.few

end Tables

/-- The state stands for a state of texts and types.  The names of declarations asked
for are the keys of the cache, the latest first. -/
structure State.Reads (M : TreeLowering.Model) (s : State) (S : LowerState) : Prop where
  sound : s.tables.Sound
  within : s.scope.Within s.tables.names
  scope : s.scope.read s.tables.names = S.names
  drawn : s.tables.Drawn s.scope.next.toNat
  loopGuard : Maybe HasName s.tables s.loopGuard S.loopGuard
  span : s.span = S.span
  problems : Each HasProblem s.tables s.problems S.problems
  returns : s.returns = S.returns
  locals : Each HasLocal s.tables s.locals S.locals
  cached : ∀ e ∈ s.cache, s.tables.HasName e.2 (M.spelling e.1.1 e.1.2)
  keys : S.table.keys = (s.cache.map Prod.fst).reverse

/-- The state still stands for the other one when the tables have grown. -/
theorem State.Reads.grow {M : TreeLowering.Model} {s : State} {S : LowerState} {u : Tables}
    (h : s.Reads M S) (hu : s.tables.Within u) (hsound : u.Sound) :
    State.Reads M { s with tables := u } S :=
  { h with
    sound := hsound
    within := h.within.grown hu.names
    scope := (InternedScope.read_grown h.within hu.names).trans h.scope
    drawn := h.drawn.mono hu
    loopGuard := Stays.mono h.loopGuard hu
    problems := Stays.mono h.problems hu
    locals := Stays.mono h.locals hu
    cached := fun e he => (h.cached e he).mono hu }

/-- What is asked of the scope moves both scopes on. -/
theorem State.Reads.serve {M : TreeLowering.Model} {s : State} {S : LowerState}
    {q : ScopeRequest} (h : s.Reads M S) (hq : SharedScope.Given s.tables.names q)
    (hnext : q.isDraw = true → s.scope.next.toNat + 1 < UInt32.size) :
    (SharedScope.serve ⟨s.scope, s.tables.names⟩ q).scope.read
        (SharedScope.serve ⟨s.scope, s.tables.names⟩ q).table =
        SharedScope.serveTexts s.tables.names S.names q ∧
      (SharedScope.serve ⟨s.scope, s.tables.names⟩ q).scope.Within
        (SharedScope.serve ⟨s.scope, s.tables.names⟩ q).table := by
  rw [← h.scope]
  exact SharedScope.read_serve h.sound.names h.within hq hnext

/-! ## Cached names -/

namespace State.Reads

variable {m : Model} {M : TreeLowering.Model} {s : State} {S : LowerState} {d : DeclId}
  {spelling : Spelling} {n : Name}

/-- A name that the cache holds is that of the rendered text. -/
theorem hasName_of_cached (h : s.Reads M S)
    (hfound : s.cache.lookup (d, spelling) = some n) :
    s.tables.HasName n (M.spelling d spelling) := by
  obtain ⟨before, after, heq, -⟩ := List.lookup_eq_some_iff.mp hfound
  refine h.cached ((d, spelling), n) ?_
  rw [heq]
  exact List.mem_append_right before List.mem_cons_self

theorem render_eq (h : s.Reads M S) (hm : s.tables.HasModel m M) (d : DeclId)
    (spelling : Spelling) :
    m.render d spelling s.tables = .ok (M.spelling d spelling, s.tables) := by
  obtain ⟨-, -, htext⟩ := hm.render d spelling s.tables (.refl _) h.sound
  exact congrArg (fun text => Except.ok (text, s.tables)) htext

/-- Rendering a name once more would give the cached one, and nothing new in the
tables. -/
theorem cached_eq_rendered (h : s.Reads M S) (hm : s.tables.HasModel m M)
    (hfound : s.cache.lookup (d, spelling) = some n) :
    (m.render d spelling >>= Tabled.intern) s.tables = .ok (n, s.tables) := by
  have hknown := (h.sound.names.inverse _ n).mpr (h.hasName_of_cached hfound)
  rw [run_bind, h.render_eq hm]
  show Tabled.intern (M.spelling d spelling) s.tables = _
  rw [Tabled.intern, Interner.tryIntern, hknown]

end State.Reads

namespace Lowering

variable {α β γ δ : Type} {M : TreeLowering.Model} {t u : Tables} {s : State} {S : LowerState}
  {R : Tables → α → β → Prop} {Q : Tables → γ → δ → Prop} {a : α} {b : β} {d : δ}
  {x : Lowering α} {y : TreeLowering.Lowering β} {c : Tabled γ} {z : TypeLowering β}

/-! ## Tracking -/

/-- What the two runs came to: there was no room, or both have no end, or both met the
same defect, or the one answered with what stands for the answer of the other. -/
inductive Ends (M : TreeLowering.Model) (R : Tables → α → β → Prop) (t : Tables) :
    Except Halt (Except LowerError α × State) → Except LowerError β × LowerState → Prop where
  | full {u : Tables} {out : Except LowerError β × LowerState} (hfull : u.Full) :
      Ends M R t (.error (.full u)) out
  | endless {S : LowerState} : Ends M R t (.error .endless) (.error .endlessType, S)
  | fail {e : LowerError} {s : State} {S : LowerState} (he : e ≠ .endlessType)
      (hgrown : t.Within s.tables) (hs : s.Reads M S) : Ends M R t (.ok (.error e, s)) (.error e, S)
  | answer {a : α} {b : β} {s : State} {S : LowerState} (hgrown : t.Within s.tables)
      (hs : s.Reads M S) (hR : R s.tables a b) : Ends M R t (.ok (.ok a, s)) (.ok b, S)

/-- From tables that the given ones grow to, the computation comes to what the one
among types and texts comes to. -/
def Tracks (M : TreeLowering.Model) (t : Tables) (x : Lowering α) (R : Tables → α → β → Prop)
    (y : TreeLowering.Lowering β) : Prop :=
  ∀ s S, t.Within s.tables → s.Reads M S → Ends M R s.tables (x.runFrom s) (y.runFrom S)

theorem runFrom_bind (x : Lowering α) (f : α → Lowering γ) (s : State) :
    (x >>= f).runFrom s =
      match x.runFrom s with
      | .error h => .error h
      | .ok (.error e, s) => .ok (.error e, s)
      | .ok (.ok a, s) => (f a).runFrom s := by
  have hrun : (x >>= f).runFrom s =
      (x.runFrom s).bind fun out => (ExceptT.bindCont f out.1).run out.2 := rfl
  rw [hrun]
  match x.runFrom s with
  | .error _ => rfl
  | .ok (.error _, _) => rfl
  | .ok (.ok _, _) => rfl

theorem runFrom_ofRun (f : State → Except Halt (Except LowerError α × State)) (s : State) :
    (ofRun f).runFrom s = f s := rfl

theorem runFrom_liftM (c : Tabled γ) (s : State) :
    (liftM c : Lowering γ).runFrom s =
      match c s.tables with
      | .error h => .error h
      | .ok (a, u) => .ok (.ok a, { s with tables := u }) := rfl

theorem runFrom_reads_bind (f : State → α) (g : α → Lowering γ) (s : State) :
    (reads f >>= g).runFrom s = (g (f s)).runFrom s := rfl

namespace Ends

theorem grow {out : Except Halt (Except LowerError α × State)}
    {out' : Except LowerError β × LowerState} (h : Ends M R u out out') (hu : t.Within u) :
    Ends M R t out out' := by
  cases h with
  | full hfull => exact .full hfull
  | endless => exact .endless
  | fail he hgrown hs => exact .fail he (hu.trans hgrown) hs
  | answer hgrown hs hR => exact .answer (hu.trans hgrown) hs hR

theorem of_endless {out : Except Halt (Except LowerError α × State)} {S' : LowerState}
    (h : Ends M R t out (.error .endlessType, S)) : Ends M R t out (.error .endlessType, S') := by
  cases h with
  | full hfull => exact .full hfull
  | endless => exact .endless
  | fail he _ _ => exact absurd rfl he

end Ends

namespace Tracks

theorem later (h : Tracks M t x R y) (hu : t.Within u) : Tracks M u x R y :=
  fun s S hs hreads => h s S (hu.trans hs) hreads

/-- What the tables have grown to may be known to be sound. -/
theorem sound (h : ∀ u, t.Within u → u.Sound → Tracks M u x R y) : Tracks M t x R y :=
  fun s S hs hreads => h s.tables hs hreads.sound s S (.refl _) hreads

theorem pure [Stays R] (h : R t a b) : Tracks M t (Pure.pure a) R (Pure.pure b) :=
  fun _ _ hs hreads => .answer (.refl _) hreads (Stays.mono h hs)

theorem bind {f : α → Lowering γ} {g : β → TreeLowering.Lowering δ} (h : Tracks M t x R y)
    (hf : ∀ u a b, t.Within u → u.Sound → R u a b → Tracks M u (f a) Q (g b)) :
    Tracks M t (x >>= f) Q (y >>= g) := by
  intro s S hs hreads
  have hends := h s S hs hreads
  rw [runFrom_bind, TreeLowering.Lowering.runFrom_bind]
  generalize x.runFrom s = out, y.runFrom S = out' at hends
  cases hends with
  | full hfull => exact .full hfull
  | endless => exact .endless
  | fail he hgrown hs => exact .fail he hgrown hs
  | @answer a b s' S' hgrown hs' hR =>
    exact (hf s'.tables a b (hs.trans hgrown) hs'.sound hR s' S' (.refl _) hs').grow hgrown

theorem map [Stays Q] {f : α → γ} {g : β → δ} (h : Tracks M t x R y)
    (hf : ∀ u a b, t.Within u → u.Sound → R u a b → Q u (f a) (g b)) :
    Tracks M t (f <$> x) Q (g <$> y) := by
  rw [map_eq_pure_bind, map_eq_pure_bind]
  exact h.bind fun u a b hu hsound hR => pure (hf u a b hu hsound hR)

/-! ## Asking the tables -/

/-- An answer of the tables stands for whatever it is said to stand for. -/
theorem asks {ε : Type} {P : Tables → γ → ε → Prop} {e : ε} (h : Tells t c Q d)
    (hP : ∀ u a, Q u a d → P u a e) : Tracks M t (liftM c) P (Pure.pure e) := by
  intro s S hs hreads
  have hends := h s.tables hs hreads.sound
  rw [runFrom_liftM]
  generalize c s.tables = out at hends
  match out, hends with
  | .error _, ⟨_, hfull, rfl⟩ => exact .full hfull
  | .ok (a, u), ⟨hu, hsound, ha⟩ => exact .answer hu (hreads.grow hu hsound) (hP u a ha)

theorem of_tells (h : Tells t c Q d) : Tracks M t (liftM c) Q (Pure.pure d) :=
  asks h fun _ _ ha => ha

/-- What the tables tell comes before anything else. -/
theorem tells {f : γ → Lowering α} (h : Tells t c Q d)
    (hf : ∀ u e, t.Within u → u.Sound → Q u e d → Tracks M u (f e) R y) :
    Tracks M t (liftM c >>= f) R y := by
  have hasked : Tracks M t (liftM c) (fun u e (_ : Unit) => Q u e d) (Pure.pure ()) :=
    asks h fun _ _ he => he
  have hbind := hasked.bind fun u e _ hu hsound he => hf u e hu hsound he
  rwa [pure_bind] at hbind

/-- Something is made of what the tables tell. -/
theorem tells_map [Stays R] {f : γ → α} (h : Tells t c Q d)
    (hf : ∀ u e, t.Within u → u.Sound → Q u e d → R u (f e) b) :
    Tracks M t (f <$> liftM c) R (Pure.pure b) := by
  rw [map_eq_pure_bind]
  exact tells h fun u e hu hsound he => pure (hf u e hu hsound he)

theorem ite {q : Tabled Bool} {yes : Bool} {x' : Lowering α} (h : Says t q yes)
    (hyes : yes = true → Tracks M t x R y) (hno : yes = false → Tracks M t x' R y) :
    Tracks M t (liftM q >>= fun a => if a = true then x else x') R y := by
  refine tells h fun u a hu _ ha => ?_
  obtain rfl : a = yes := ha
  cases a with
  | true => exact (hyes rfl).later hu
  | false => exact (hno rfl).later hu

/-- A question on which the other side decides the same way. -/
theorem ite' {q : Tabled Bool} {yes : Bool} {x' : Lowering α} {y' : TreeLowering.Lowering β}
    (h : Says t q yes) (hyes : yes = true → Tracks M t x R y)
    (hno : yes = false → Tracks M t x' R y') :
    Tracks M t (liftM q >>= fun a => if a = true then x else x') R
      (if yes = true then y else y') := by
  refine ite h (fun hb => ?_) fun hb => ?_
  · rw [if_pos hb]
    exact hyes hb
  · rw [if_neg (by simp [hb])]
    exact hno hb

/-- Both sides decide by conditions that hold together. -/
theorem ite_iff {p q : Prop} [Decidable p] [Decidable q] {x' : Lowering α}
    {y' : TreeLowering.Lowering β} (h : p ↔ q) (hyes : q → Tracks M t x R y)
    (hno : ¬q → Tracks M t x' R y') :
    Tracks M t (if p then x else x') R (if q then y else y') := by
  by_cases hq : q
  · rw [if_pos (h.mpr hq), if_pos hq]
    exact hyes hq
  · rw [if_neg (mt h.mp hq), if_neg hq]
    exact hno hq

/-! ## Lowering a type -/

theorem typed_pure [Stays R] (h : R t a b) :
    Tracks M t (Pure.pure a) R (.ofType (Pure.pure b)) := pure h

theorem typed_bind {f : α → Lowering γ} {g : β → TypeLowering δ}
    (h : Tracks M t x R (.ofType z))
    (hf : ∀ u a b, t.Within u → u.Sound → R u a b → Tracks M u (f a) Q (.ofType (g b))) :
    Tracks M t (x >>= f) Q (.ofType (z >>= g)) := by
  intro s S hs hreads
  have hends := h.bind hf s S hs hreads
  rw [TreeLowering.Lowering.runFrom_bind] at hends
  rw [TypeLowering.bind_eq_andThen]
  cases z with
  | none => exact hends
  | some found =>
    obtain ⟨b, notes⟩ := found
    replace hends : Ends M Q s.tables ((x >>= f).runFrom s)
        ((TreeLowering.Lowering.ofType (g b)).runFrom (S.addNotes notes)) := hends
    rw [TypeLowering.some_andThen]
    cases hg : g b with
    | none =>
      rw [hg] at hends
      -- what was noted before no end was found does not matter
      exact hends.of_endless
    | some found =>
      rw [hg] at hends
      obtain ⟨d, more⟩ := found
      have hnotes : S.addNotes (notes ++ more) = (S.addNotes notes).addNotes more :=
        List.foldl_append
      show Ends M Q s.tables _ (.ok d, S.addNotes (notes ++ more))
      rw [hnotes]
      exact hends

theorem typed_map [Stays Q] {f : α → γ} {g : β → δ} (h : Tracks M t x R (.ofType z))
    (hf : ∀ u a b, t.Within u → u.Sound → R u a b → Q u (f a) (g b)) :
    Tracks M t (f <$> x) Q (.ofType (g <$> z)) := by
  rw [map_eq_pure_bind, map_eq_pure_bind]
  exact h.typed_bind fun u a b hu hsound hR => typed_pure (hf u a b hu hsound hR)

theorem typed_ite' {q : Tabled Bool} {yes : Bool} {x' : Lowering α} {z' : TypeLowering β}
    (h : Says t q yes) (hyes : yes = true → Tracks M t x R (.ofType z))
    (hno : yes = false → Tracks M t x' R (.ofType z')) :
    Tracks M t (liftM q >>= fun a => if a = true then x else x') R
      (.ofType (if yes = true then z else z')) := by
  refine ite h (fun hb => ?_) fun hb => ?_
  · rw [if_pos hb]
    exact hyes hb
  · rw [if_neg (by simp [hb])]
    exact hno hb

theorem typed_ite_iff {p q : Prop} [Decidable p] [Decidable q] {x' : Lowering α}
    {z' : TypeLowering β} (h : p ↔ q) (hyes : q → Tracks M t x R (.ofType z))
    (hno : ¬q → Tracks M t x' R (.ofType z')) :
    Tracks M t (if p then x else x') R (.ofType (if q then z else z')) := by
  have hboth := ite_iff h hyes hno
  by_cases hq : q
  · rw [if_pos hq]
    rwa [if_pos hq] at hboth
  · rw [if_neg hq]
    rwa [if_neg hq] at hboth

theorem typed_tells (h : Tells t c Q d) : Tracks M t (liftM c) Q (.ofType (Pure.pure d)) :=
  of_tells h

theorem halt : Tracks M t (Lowering.halt .endless) R (.ofType TypeLowering.tooDeep) :=
  fun _ _ _ _ => .endless

/-! ## Single steps -/

theorem reads [Stays R] {f : State → α} {g : LowerState → β}
    (h : ∀ s S, t.Within s.tables → s.Reads M S → R s.tables (f s) (g S)) :
    Tracks M t (Lowering.reads f) R (TreeLowering.Lowering.reads g) :=
  fun s S hs hreads => .answer (.refl _) hreads (h s S hs hreads)

theorem change {f : State → State} {g : LowerState → LowerState}
    (h : ∀ s S, t.Within s.tables → s.Reads M S → (f s).tables = s.tables ∧ (f s).Reads M (g S)) :
    Tracks M t (Lowering.change f) Same (TreeLowering.Lowering.change g) := by
  intro s S hs hreads
  obtain ⟨htables, hreads⟩ := h s S hs hreads
  refine .answer ?_ hreads rfl
  show s.tables.Within (f s).tables
  rw [htables]
  exact .refl _

theorem fail {e : LowerError} (he : e ≠ .endlessType) :
    Tracks M t (Lowering.fail e) R (TreeLowering.Lowering.fail e) :=
  fun _ _ _ hreads => .fail he (.refl _) hreads

theorem moveTo (span : Span) :
    Tracks M t (Lowering.moveTo span) Same (TreeLowering.Lowering.moveTo span) :=
  change fun _ _ _ hreads => ⟨rfl, { hreads with span := rfl }⟩

theorem problemAt (span : Span) {kind : ProblemKind} {Kind : TreeLowering.ProblemKind}
    (h : t.HasKind kind Kind) :
    Tracks M t (Lowering.problemAt span kind) Same (TreeLowering.Lowering.problemAt span Kind) :=
  change fun _ _ hs hreads => ⟨rfl, { hreads with
    problems := hreads.problems.append (.cons ⟨Stays.mono h hs, rfl⟩ .nil) }⟩

theorem missingArgument {i : TypeIdx} {τ : Ty} {n : Name} {param : String} (hi : t.HasTy i τ)
    (hn : t.HasName n param) :
    Tracks M t (Lowering.problem (.missingTypeArgument i n)) Same
      (.ofType (TypeLowering.note (.missingArgument τ param))) :=
  fun _ _ hs hreads => .answer (.refl _) { hreads with
    problems := hreads.problems.append
      (.cons ⟨.missingTypeArgument (hi.mono hs) (hn.mono hs), hreads.span⟩ .nil) } rfl

theorem keepLocal {n : Name} {name : String} (hn : t.HasName n name) (form : Form) :
    Tracks M t (Lowering.keepLocal n form) Same (TreeLowering.Lowering.keepLocal name form) :=
  change fun _ _ hs hreads => ⟨rfl, { hreads with
    locals := .cons ⟨hn.mono hs, rfl⟩ hreads.locals }⟩

theorem localForm? {n : Name} {name : String} (hn : t.HasName n name) :
    Tracks M t (Lowering.localForm? n) Same (TreeLowering.Lowering.localForm? name) :=
  reads fun _ _ hs hreads => hreads.locals.lookup hreads.sound (hn.mono hs)

theorem resolve {n : Name} {name : String} (hn : t.HasName n name) :
    Tracks M t (Lowering.resolve n) HasName (TreeLowering.Lowering.resolve name) := by
  refine reads fun s S hs hreads => ?_
  replace hn := hn.mono hs
  have hread := InternedScope.resolve_read hreads.sound.names hreads.within hn.lt
  rw [hreads.scope, hn.lookup] at hread
  rw [hread]
  exact Interner.stores_lookup (hreads.within.resolve hn.lt)

/-- A lowering that still finds a name for a synthetic one draws the number that the
scope of texts draws. -/
theorem fresh (base : String) :
    Tracks M t (Lowering.fresh base) HasName (TreeLowering.Lowering.fresh base) := by
  intro s S hs hreads
  have hends := Tells.intern (synthetic base s.scope.next.toNat) s.tables (.refl _) hreads.sound
  have hnumber : S.names.next = s.scope.next.toNat := by
    rw [← hreads.scope]
    rfl
  rw [Lowering.fresh, runFrom_ofRun, InternedScope.fresh_eq, hreads.scope, TreeLowering.fresh_eq,
    hnumber]
  unfold Tabled.intern at hends
  cases hout : s.tables.names.tryIntern (synthetic base s.scope.next.toNat) with
  | mk found names =>
    rw [hout] at hends
    cases found with
    | error _ =>
      obtain ⟨_, hfull, hout⟩ := hends
      cases hout
      exact .full hfull
    | ok n =>
      obtain ⟨hu, hsound, hn⟩ := hends
      -- the text of the new name ends in a number that no text ended in
      have hdrawn := (hreads.drawn.mono hu).succ hn
      have hless : s.scope.next.toNat + 1 < UInt32.size := hdrawn.lt hsound
      obtain ⟨hread, hwithin⟩ := hreads.serve (q := .fresh base) trivial fun _ => hless
      have hserve : SharedScope.serve ⟨s.scope, s.tables.names⟩ (.fresh base) =
          ⟨{ s.scope with next := s.scope.next + 1 }, names⟩ :=
        congrArg (fun out : Except InternError Name × Interner =>
          SharedScope.mk { s.scope with next := s.scope.next + 1 } out.2) hout
      rw [hserve] at hread hwithin
      refine .answer hu { hreads.grow hu hsound with
        within := hwithin
        scope := hread
        drawn := ?_ } ?_
      · show Drawn _ (s.scope.next + 1).toNat
        rw [InternedScope.toNat_next hless]
        exact hdrawn
      · show HasName _ n (S.names.fresh base).1
        rw [TreeLowering.fresh_eq, hnumber]
        exact hn

theorem freshFor {n : Name} {source : String} (hn : t.HasName n source) :
    Tracks M t (Lowering.freshFor n) HasName (TreeLowering.Lowering.fresh source) := by
  refine tells (Tells.textOf hn) fun u base _ _ hbase => ?_
  obtain rfl : base = source := hbase
  exact fresh base

/-! ## What is set for a part of the tree -/

/-- A part that is run in a changed state, where what was changed is put back. -/
theorem within {enter : State → State} {leave : State → State → State}
    (enter' : LowerState → LowerState) (leave' : LowerState → LowerState → LowerState)
    (h : Tracks M t x R y)
    (henter : ∀ s S, t.Within s.tables → s.Reads M S →
      (enter s).tables = s.tables ∧ (enter s).Reads M (enter' S))
    (hleave : ∀ s S u U, t.Within s.tables → s.Reads M S → s.tables.Within u.tables →
      u.Reads M U → (leave s u).tables = u.tables ∧ (leave s u).Reads M (leave' S U)) :
    Tracks M t (Lowering.within enter leave x) R
      (.ofRun fun S => ((y.runFrom (enter' S)).1, leave' S (y.runFrom (enter' S)).2)) := by
  intro s S hs hreads
  obtain ⟨htables, henter⟩ := henter s S hs hreads
  have hends := h (enter s) (enter' S) (by rwa [htables]) henter
  rw [TreeLowering.Lowering.runFrom_ofRun]
  show Ends M R s.tables ((x.runFrom (enter s)).bind fun out => .ok (out.1, leave s out.2)) _
  rw [htables] at hends
  generalize x.runFrom (enter s) = out, y.runFrom (enter' S) = out' at hends
  cases hends with
  | full hfull => exact .full hfull
  | endless => exact .endless
  | @fail e u U he hgrown hu =>
    obtain ⟨hout, hback⟩ := hleave s S u U hs hreads hgrown hu
    exact .fail he (by rwa [hout]) hback
  | @answer a b u U hgrown hu hR =>
    obtain ⟨hout, hback⟩ := hleave s S u U hs hreads hgrown hu
    exact .answer (by rwa [hout]) hback (by rwa [hout])

theorem withLoopGuard {guard : Option Name} {Guard : Option String}
    (hguard : Maybe HasName t guard Guard) (h : Tracks M t x R y) :
    Tracks M t (Lowering.withLoopGuard guard x) R (TreeLowering.Lowering.withLoopGuard Guard y) :=
  within ({ · with loopGuard := Guard }) (fun S U => { U with loopGuard := S.loopGuard }) h
    (fun _ _ hs hreads => ⟨rfl, { hreads with loopGuard := Stays.mono hguard hs }⟩)
    fun _ _ _ _ _ hreads hgrown hu =>
      ⟨rfl, { hu with loopGuard := Stays.mono hreads.loopGuard hgrown }⟩

theorem withReturns (returns : ReturnForm) (h : Tracks M t x R y) :
    Tracks M t (Lowering.withReturns returns x) R (TreeLowering.Lowering.withReturns returns y) :=
  within ({ · with returns := some returns }) (fun S U => { U with returns := S.returns }) h
    (fun _ _ _ hreads => ⟨rfl, { hreads with returns := rfl }⟩)
    fun _ _ _ _ _ hreads _ hu => ⟨rfl, { hu with returns := hreads.returns }⟩

theorem withReplacement {n m : Name} {name other : String} (hn : t.HasName n name)
    (hm : t.HasName m other) (h : Tracks M t x R y) :
    Tracks M t (Lowering.withReplacement n m x) R
      (TreeLowering.Lowering.withReplacement name other y) := by
  refine within (fun S => { S with names := (S.names.replace name other).2 })
    (fun S U => { U with names := U.names.restore name (S.names.replace name other).1 }) h
    (fun s S hs hreads => ?_) fun s S u U hs hreads hgrown hu => ?_
  · replace hn := hn.mono hs
    replace hm := hm.mono hs
    obtain ⟨hread, hwithin⟩ := hreads.serve (q := .replace n m) ⟨hn.lt, hm.lt⟩
      (absurd · Bool.false_ne_true)
    rw [SharedScope.serveTexts, hn.lookup, hm.lookup] at hread
    refine ⟨rfl, { hreads with within := hwithin, scope := hread, drawn := ?_ }⟩
    show s.tables.Drawn (s.scope.set n (some m)).next.toNat
    rw [InternedScope.next_set]
    exact hreads.drawn
  · replace hn := hn.mono hs
    have hfound := InternedScope.find?_read hreads.sound.names hreads.within hn.lt
    have hlt : ∀ k ∈ s.scope.find? n, k.index < s.tables.names.size :=
      fun k hk => hreads.within.find? hk
    have hprevious : (s.scope.find? n).map u.tables.names.lookup = S.names.find? name := by
      rw [← hreads.scope, ← hn.lookup, hfound]
      exact Option.map_congr fun k hk => hgrown.names.lookup (hlt k hk)
    obtain ⟨hread, hwithin⟩ := hu.serve (q := .restore n (s.scope.find? n))
      ⟨(hn.mono hgrown).lt, fun k hk =>
        (hgrown.names _ _ (Interner.stores_lookup (hlt k hk))).lt⟩ (absurd · Bool.false_ne_true)
    rw [SharedScope.serveTexts, (hn.mono hgrown).lookup, hprevious] at hread
    refine ⟨rfl, { hu with within := hwithin, scope := hread, drawn := ?_ }⟩
    show u.tables.Drawn (u.scope.set n _).next.toNat
    rw [InternedScope.next_set]
    exact hu.drawn

/-! ## Names of declarations -/

/-- A name found in the cache is the one that would be rendered. -/
theorem declName {m : Model} (hm : t.HasModel m M) (d : DeclId) (spelling : Spelling) :
    Tracks M t (Lowering.declName m d spelling) HasName
      (.ofType (TypeLowering.declName M d spelling)) := by
  intro s S hs hreads
  rw [Lowering.declName, runFrom_reads_bind]
  show Ends M HasName s.tables _ (.ok (M.spelling d spelling),
    { S with table := S.table.record d spelling })
  have hkeys : (d, spelling) ∈ S.table.keys ↔ (s.cache.lookup (d, spelling)).isSome = true := by
    rw [hreads.keys, List.mem_reverse, List.lookup_isSome_iff, List.mem_map]
    exact exists_congr fun e => and_congr_right fun _ => eq_comm.trans beq_iff_eq.symm
  cases hfound : s.cache.lookup (d, spelling) with
  | some known =>
    rw [hfound] at hkeys
    have hrecord : S.table.record d spelling = S.table := if_pos (hkeys.mpr rfl)
    rw [hrecord]
    exact .answer (.refl _) hreads (hreads.hasName_of_cached hfound)
  | none =>
    rw [hfound] at hkeys
    have hrecord : (S.table.record d spelling).keys = S.table.keys ++ [(d, spelling)] := by
      rw [NameTable.record, if_neg (by simp [hkeys])]
    have hends := Tells.intern (M.spelling d spelling) s.tables (.refl _) hreads.sound
    rw [runFrom_bind, runFrom_liftM, hreads.render_eq (hm.mono hs)]
    dsimp only
    rw [runFrom_bind, runFrom_liftM]
    dsimp only
    generalize Tabled.intern (M.spelling d spelling) s.tables = out at hends
    cases out with
    | error e =>
      obtain ⟨_, hfull, rfl⟩ := hends
      exact .full hfull
    | ok out =>
      obtain ⟨n, u⟩ := out
      obtain ⟨hu, hsound, hn⟩ := hends
      refine .answer hu { hreads.grow hu hsound with
        cached := List.forall_mem_cons.mpr ⟨hn, (hreads.grow hu hsound).cached⟩
        keys := ?_ } hn
      rw [hrecord, hreads.keys, List.map_cons, List.reverse_cons]

end Tracks

end Lowering

end TreeLowering.Shared
