import TreeLowering.Lowering.InternedScope
import TreeLowering.Proofs.InternerRun
import TreeLowering.Proofs.SyntheticName
set_option autoImplicit false

/-!
# Proofs: runs of a name scope

A name scope draws synthetic names from an interner that it shares with others.
Read as texts, it does what a scope of texts does, until its 32-bit counter comes
round.  Up to then every name that it draws has a number of its own, which can be
read off the end of the name's text, so that no two names that it draws are the
same and none is the name of a text that ends otherwise.
-/

namespace TreeLowering

namespace InternedScope

variable {s : InternedScope} {t : Interner} {n m : Name} {base : String}

/-! ## A scope read as texts -/

/-- The scope with the texts of its names. -/
def read (s : InternedScope) (t : Interner) : NameScope :=
  ⟨s.replacements.map fun e => (t.lookup e.1, t.lookup e.2), s.next.toNat⟩

/-- The names of the scope are names of the table. -/
def Within (s : InternedScope) (t : Interner) : Prop :=
  ∀ e ∈ s.replacements, e.1.index < t.size ∧ e.2.index < t.size

theorem read_next (s : InternedScope) (t : Interner) : (s.read t).next = s.next.toNat := rfl

/-- The text of the name that is drawn is the name that the scope of texts
draws. -/
theorem fresh_eq (s : InternedScope) (t : Interner) (base : String) :
    s.fresh t base =
      ((t.tryIntern ((s.read t).fresh base).1).1, { s with next := s.next + 1 },
        (t.tryIntern ((s.read t).fresh base).1).2) := rfl

theorem read_grown {u : Interner} (hs : s.Within t) (h : t.Within u) : s.read u = s.read t := by
  simp only [read, NameScope.mk.injEq, and_true]
  refine List.map_congr_left fun e he => ?_
  obtain ⟨hkey, hvalue⟩ := hs e he
  rw [h.lookup hkey, h.lookup hvalue]

/-- The counter has not come round. -/
theorem toNat_next (h : s.next.toNat + 1 < UInt32.size) :
    (s.next + 1).toNat = s.next.toNat + 1 := by
  rw [UInt32.toNat_add]
  exact Nat.mod_eq_of_lt h

/-- Drawing a name moves the scope of texts on as it moves this one, but for the
last number. -/
theorem read_fresh (hs : s.Within t) (hnext : s.next.toNat + 1 < UInt32.size) (base : String) :
    (s.fresh t base).2.1.read (s.fresh t base).2.2 = ((s.read t).fresh base).2 := by
  have hread := read_grown hs (t.within_tryIntern ((s.read t).fresh base).1)
  rw [fresh_eq, NameScope.fresh]
  simp only [read, NameScope.mk.injEq] at hread ⊢
  exact ⟨hread.1, toNat_next hnext⟩

theorem lookup_read {es : List (Name × Name)} (ht : t.Sound)
    (hes : ∀ e ∈ es, e.1.index < t.size ∧ e.2.index < t.size) (hn : n.index < t.size) :
    (es.map fun e => (t.lookup e.1, t.lookup e.2)).lookup (t.lookup n) =
      (es.lookup n).map t.lookup := by
  induction es with
  | nil => rfl
  | cons e es ih =>
    obtain ⟨key, value⟩ := e
    have hkey : key.index < t.size := (hes _ List.mem_cons_self).1
    have hrest := ih fun e he => hes e (List.mem_cons_of_mem _ he)
    rw [List.map_cons, List.lookup_cons, List.lookup_cons]
    by_cases heq : n = key
    · subst heq
      simp
    · have hne : t.lookup n ≠ t.lookup key := fun h => heq (ht.lookup_inj hn hkey h)
      rw [beq_eq_false_iff_ne.mpr heq, beq_eq_false_iff_ne.mpr hne]
      exact hrest

theorem find?_read (ht : t.Sound) (hs : s.Within t) (hn : n.index < t.size) :
    (s.read t).find? (t.lookup n) = (s.find? n).map t.lookup :=
  lookup_read ht hs hn

/-- A name stands for the same text in both. -/
theorem resolve_read (ht : t.Sound) (hs : s.Within t) (hn : n.index < t.size) :
    (s.read t).resolve (t.lookup n) = t.lookup (s.resolve n) := by
  rw [NameScope.resolve, find?_read ht hs hn, resolve]
  cases s.find? n <;> rfl

theorem erase_read {es : List (Name × Name)} (ht : t.Sound)
    (hes : ∀ e ∈ es, e.1.index < t.size ∧ e.2.index < t.size) (hn : n.index < t.size) :
    Assoc.erase (t.lookup n) (es.map fun e => (t.lookup e.1, t.lookup e.2)) =
      (Assoc.erase n es).map fun e => (t.lookup e.1, t.lookup e.2) := by
  unfold Assoc.erase
  rw [List.filter_map]
  refine congrArg (List.map _) (List.filter_congr fun e he => ?_)
  simp only [Function.comp_apply, decide_eq_decide]
  exact not_congr ⟨ht.lookup_inj (hes e he).1 hn, congrArg t.lookup⟩

/-- A replacement that is set or removed is so in both. -/
theorem read_set (ht : t.Sound) (hs : s.Within t) (hn : n.index < t.size) (other : Option Name) :
    (s.set n other).read t = (s.read t).set (t.lookup n) (other.map t.lookup) := by
  cases other with
  | none => simp only [read, set, NameScope.set, Option.map_none, erase_read ht hs hn]
  | some m =>
    simp only [read, set, NameScope.set, Option.map_some, Assoc.set, List.map_cons,
      erase_read ht hs hn]

/-- Making a name stand for another one gives back what it stood for in both. -/
theorem read_replace (ht : t.Sound) (hs : s.Within t) (hn : n.index < t.size) (other : Name) :
    (s.read t).replace (t.lookup n) (t.lookup other) =
      ((s.replace n other).1.map t.lookup, (s.replace n other).2.read t) := by
  simp only [NameScope.replace, replace, find?_read ht hs hn, read_set ht hs hn, Option.map_some]

theorem next_set (s : InternedScope) (n : Name) (other : Option Name) :
    (s.set n other).next = s.next := by
  cases other <;> rfl

theorem Within.grown {u : Interner} (hs : s.Within t) (h : t.Within u) : s.Within u := by
  intro e he
  obtain ⟨hkey, hvalue⟩ := hs e he
  exact ⟨(h _ _ (Interner.stores_lookup hkey)).lt, (h _ _ (Interner.stores_lookup hvalue)).lt⟩

theorem Within.set (hs : s.Within t) (hn : n.index < t.size) {other : Option Name}
    (hother : ∀ m ∈ other, m.index < t.size) : (s.set n other).Within t := by
  have herase : ∀ e ∈ Assoc.erase n s.replacements, e.1.index < t.size ∧ e.2.index < t.size :=
    fun e he => hs e (List.mem_of_mem_filter he)
  cases other with
  | none => exact herase
  | some m => exact List.forall_mem_cons.mpr ⟨⟨hn, hother m rfl⟩, herase⟩

/-- A replacement is a name of the table. -/
theorem Within.find? (hs : s.Within t) (h : s.find? n = some m) : m.index < t.size := by
  obtain ⟨before, after, heq, -⟩ := List.lookup_eq_some_iff.mp h
  refine (hs (n, m) ?_).2
  rw [heq]
  exact List.mem_append_right before List.mem_cons_self

/-- What a name of the table stands for is a name of the table. -/
theorem Within.resolve (hs : s.Within t) (hn : n.index < t.size) : (s.resolve n).index < t.size := by
  unfold InternedScope.resolve
  cases hfound : s.find? n with
  | none => exact hn
  | some m => exact hs.find? hfound

end InternedScope

/-! ## Runs -/

/-- What is asked of a scope, and of the interner that it shares with others. -/
inductive ScopeRequest where
  /-- A new synthetic name. -/
  | fresh (base : String)
  /-- A new synthetic name for a source name. -/
  | freshFor (source : Name)
  /-- To make a name stand for another one. -/
  | replace (name other : Name)
  /-- To undo a replacement. -/
  | restore (name : Name) (previous : Option Name)
  /-- The name of a text, asked by others. -/
  | intern (text : String)
  deriving DecidableEq, Repr

/-- The request asks for a new synthetic name. -/
def ScopeRequest.isDraw : ScopeRequest → Bool
  | fresh _ | freshFor _ => true
  | replace .. | restore .. | intern _ => false

/-- A scope and the interner that its names come from. -/
structure SharedScope where
  scope : InternedScope
  table : Interner
  deriving Repr

namespace SharedScope

variable {st : SharedScope} {q : ScopeRequest} {rs : List ScopeRequest} {base base' : String}
  {n m : Name} {i j : Nat}

/-- A new scope over a new interner. -/
def new : SharedScope := ⟨.new, .new⟩

instance : Inhabited SharedScope := ⟨new⟩

/-- The scope and the interner after a request. -/
def serve (st : SharedScope) : ScopeRequest → SharedScope
  | .fresh base =>
    let (_, scope, table) := st.scope.fresh st.table base
    ⟨scope, table⟩
  | .freshFor source =>
    let (_, scope, table) := st.scope.freshFor st.table source
    ⟨scope, table⟩
  | .replace name other => { st with scope := (st.scope.replace name other).2 }
  | .restore name previous => { st with scope := st.scope.restore name previous }
  | .intern text => { st with table := (st.table.tryIntern text).2 }

/-- The base of the new synthetic name that a request asks for. -/
def base? (st : SharedScope) : ScopeRequest → Option String
  | .fresh base => some base
  | .freshFor source => some (st.table.lookup source)
  | .replace .. | .restore .. | .intern _ => none

/-- A new scope and its interner after the first `i` requests of a run. -/
def reached (rs : List ScopeRequest) (i : Nat) : SharedScope := stateAt serve new rs i

/-- How many new synthetic names were asked for before position `i`. -/
def drawsBefore (rs : List ScopeRequest) (i : Nat) : Nat := (rs.take i).countP (·.isDraw)

/-- The request at position `i` asks for a new synthetic name with a base, and `n`
is returned. -/
def Drawn (rs : List ScopeRequest) (i : Nat) (base : String) (n : Name) : Prop :=
  ∃ q, rs[i]? = some q ∧ (reached rs i).base? q = some base ∧
    ((reached rs i).scope.fresh (reached rs i).table base).1 = .ok n

/-- The text ends in a dollar sign and a decimal number. -/
def EndsInNumber (text : String) : Prop :=
  ∃ before digits, digits ≠ [] ∧ (∀ d ∈ digits, d.isDigit = true) ∧
    text.toList = before ++ '$' :: digits

theorem endsInNumber_synthetic (base : String) (k : Nat) : EndsInNumber (synthetic base k) :=
  ⟨base.toList, Nat.toDigits 10 k, Nat.toDigits_ne_nil,
    fun _ hd => Nat.isDigit_of_mem_toDigits (by decide) (by decide) hd, toList_synthetic base k⟩

/-! ### One request -/

theorem base?_isSome (st : SharedScope) (q : ScopeRequest) : (st.base? q).isSome = q.isDraw := by
  cases q <;> rfl

/-- A request for a new name draws it with its base. -/
theorem serve_of_base? (h : st.base? q = some base) :
    st.serve q = ⟨(st.scope.fresh st.table base).2.1, (st.scope.fresh st.table base).2.2⟩ := by
  cases q with
  | fresh b => cases h; rfl
  | freshFor source => cases h; rfl
  | replace name other => cases h
  | restore name previous => cases h
  | intern text => cases h

/-- Only requests for new names are counted. -/
theorem next_serve (st : SharedScope) (q : ScopeRequest) :
    (st.serve q).scope.next = if q.isDraw then st.scope.next + 1 else st.scope.next := by
  cases q with
  | fresh b => rfl
  | freshFor source => rfl
  | replace name other => exact st.scope.next_set name _
  | restore name previous => exact st.scope.next_set name _
  | intern text => rfl

/-- The interner is asked for one name, or it is left alone. -/
theorem table_serve (st : SharedScope) (q : ScopeRequest) :
    (st.serve q).table = st.table ∨ ∃ text, (st.serve q).table = (st.table.tryIntern text).2 := by
  cases q with
  | fresh b => exact .inr ⟨_, rfl⟩
  | freshFor source => exact .inr ⟨_, rfl⟩
  | replace name other => exact .inl rfl
  | restore name previous => exact .inl rfl
  | intern text => exact .inr ⟨text, rfl⟩

theorem sound_serve (h : st.table.Sound) (q : ScopeRequest) : (st.serve q).table.Sound := by
  obtain hsame | ⟨text, hasked⟩ := st.table_serve q
  · rwa [hsame]
  · rw [hasked]
    exact h.tryIntern text

theorem within_serve (st : SharedScope) (q : ScopeRequest) :
    st.table.Within (st.serve q).table := by
  obtain hsame | ⟨text, hasked⟩ := st.table_serve q
  · rw [hsame]
    exact .refl _
  · rw [hasked]
    exact st.table.within_tryIntern text

/-! ### Whole runs -/

theorem reached_succ (h : rs[i]? = some q) : reached rs (i + 1) = (reached rs i).serve q :=
  stateAt_succ h

theorem sound_reached (rs : List ScopeRequest) (i : Nat) : (reached rs i).table.Sound :=
  stateAt_induction (P := fun st : SharedScope => st.table.Sound) Interner.sound_new
    (fun _ q h => sound_serve h q) i

theorem within_reached (h : i ≤ j) : (reached rs i).table.Within (reached rs j).table :=
  stateAt_mono (R := fun a b : SharedScope => a.table.Within b.table) (fun _ => .refl _)
    (fun hab hbc => hab.trans hbc) within_serve h

theorem drawsBefore_succ (h : rs[i]? = some q) :
    drawsBefore rs (i + 1) = drawsBefore rs i + if q.isDraw then 1 else 0 := by
  unfold drawsBefore
  rw [List.take_add_one, h, List.countP_append]
  simp [List.countP_cons]

theorem drawsBefore_mono (h : i ≤ j) : drawsBefore rs i ≤ drawsBefore rs j :=
  (List.take_sublist_take_left h).countP_le

theorem drawsBefore_le (rs : List ScopeRequest) (i : Nat) :
    drawsBefore rs i ≤ rs.countP (·.isDraw) :=
  (List.take_sublist i rs).countP_le

/-- The counter is the number of names asked for, in a 32-bit word. -/
theorem next_reached (rs : List ScopeRequest) (i : Nat) :
    (reached rs i).scope.next = UInt32.ofNat (drawsBefore rs i) := by
  induction i with
  | zero => rfl
  | succ i ih =>
    cases hq : rs[i]? with
    | none =>
      rw [reached, stateAt_succ_of_none hq, drawsBefore, List.take_add_one, hq, Option.toList_none,
        List.append_nil]
      exact ih
    | some q =>
      rw [reached_succ hq, next_serve, drawsBefore_succ hq, ih]
      split
      · exact (UInt32.ofNat_add _ 1).symm
      · rfl

theorem toNat_next_reached (hfew : rs.countP (·.isDraw) < UInt32.size) (i : Nat) :
    (reached rs i).scope.next.toNat = drawsBefore rs i := by
  rw [next_reached]
  exact UInt32.toNat_ofNat_of_lt (Nat.lt_of_le_of_lt (drawsBefore_le rs i) hfew)

/-! ### The names that a run draws -/

/-- The name that is drawn reads, from then on, as its base with the number of
names drawn before. -/
theorem Drawn.stores (hfew : rs.countP (·.isDraw) < UInt32.size) (h : Drawn rs i base n)
    (hij : i < j) : (reached rs j).table.Stores n (synthetic base (drawsBefore rs i)) := by
  obtain ⟨q, hq, hbase, hname⟩ := h
  have htext : (((reached rs i).scope.read (reached rs i).table).fresh base).1 =
      synthetic base (drawsBefore rs i) := by
    rw [TreeLowering.fresh_eq, InternedScope.read_next, toNat_next_reached hfew]
  rw [InternedScope.fresh_eq, htext] at hname
  have hnext : (reached rs (i + 1)).table =
      ((reached rs i).table.tryIntern (synthetic base (drawsBefore rs i))).2 := by
    rw [reached_succ hq, serve_of_base? hbase, InternedScope.fresh_eq, htext]
  refine within_reached hij _ _ (((sound_reached rs (i + 1)).inverse _ n).mp ?_)
  rw [hnext]
  exact Interner.find?_of_tryIntern hname

theorem Drawn.isDraw (h : Drawn rs i base n) : ∃ q, rs[i]? = some q ∧ q.isDraw = true := by
  obtain ⟨q, hq, hbase, -⟩ := h
  exact ⟨q, hq, by rw [← base?_isSome (reached rs i), hbase]; rfl⟩

/-- A later name has a larger number. -/
theorem Drawn.drawsBefore_lt (h : Drawn rs i base n) (hij : i < j) :
    drawsBefore rs i < drawsBefore rs j := by
  obtain ⟨q, hq, hdraw⟩ := h.isDraw
  calc drawsBefore rs i
      < drawsBefore rs i + 1 := Nat.lt_succ_self _
    _ = drawsBefore rs (i + 1) := by rw [drawsBefore_succ hq, if_pos hdraw]
    _ ≤ drawsBefore rs j := drawsBefore_mono hij

/-- A name that is drawn is none that was drawn before. -/
theorem Drawn.ne_of_lt (hfew : rs.countP (·.isDraw) < UInt32.size) (hn : Drawn rs i base n)
    (hm : Drawn rs j base' m) (hij : i < j) : n ≠ m := by
  rintro rfl
  have hfirst := hn.stores hfew (Nat.lt_succ_of_lt hij)
  have hsecond := hm.stores hfew (Nat.lt_succ_self j)
  have hnumber := synthetic_number_inj (hfirst.lookup.symm.trans hsecond.lookup)
  exact absurd hnumber (Nat.ne_of_lt (hn.drawsBefore_lt hij))

/-- What a run of a name scope shows of the synthetic names. -/
structure DrawnApart (rs : List ScopeRequest) : Prop where
  /-- Every request for a new name returns one, while the interner has names
  left. -/
  returns : ∀ i q, rs[i]? = some q → q.isDraw = true →
    (reached rs i).table.size < Name.count → ∃ base n, Drawn rs i base n
  /-- The name reads, from then on, as its base with the number of names drawn
  before. -/
  reads : ∀ i j base n, Drawn rs i base n → i < j →
    (reached rs j).table.lookup n = synthetic base (drawsBefore rs i)
  /-- No name is drawn twice. -/
  distinct : ∀ i j base base' n m, Drawn rs i base n → Drawn rs j base' m → i ≠ j → n ≠ m
  /-- No name that is drawn is, at any point of the run, the name of a text that
  does not end in a dollar sign and a number. -/
  other : ∀ i j base n m, Drawn rs i base n → m.index < (reached rs j).table.size →
    ¬ EndsInNumber ((reached rs j).table.lookup m) → n ≠ m

/-- A scope that is asked for fewer than `2 ^ 32` new names, with any bases and
with any replacements made and undone in between, never returns a name twice, and
never the name of a text that does not end in a dollar sign and a number. -/
theorem drawnApart_of_few (rs : List ScopeRequest) (hfew : rs.countP (·.isDraw) < UInt32.size) :
    DrawnApart rs where
  returns i q hq hdraw hsize := by
    rw [← base?_isSome (reached rs i)] at hdraw
    obtain ⟨base, hbase⟩ := Option.isSome_iff_exists.mp hdraw
    obtain ⟨n, hn⟩ := Interner.exists_tryIntern hsize
      (((reached rs i).scope.read (reached rs i).table).fresh base).1
    exact ⟨base, n, q, hq, hbase, hn⟩
  reads i j base n hn hij := (hn.stores hfew hij).lookup
  distinct i j base base' n m hn hm hne := by
    obtain hlt | hgt := Nat.lt_or_gt_of_ne hne
    · exact hn.ne_of_lt hfew hm hlt
    · exact (hm.ne_of_lt hfew hn hgt).symm
  other i j base n m hn hm hother := by
    rintro rfl
    refine hother ?_
    -- the name reads the same at both points, since it is known at each of them
    have hlater := hn.stores hfew (Nat.lt_succ_of_le (Nat.le_max_left i j))
    have hsame := (within_reached (Nat.le_succ_of_le (Nat.le_max_right i j))).lookup hm
    rw [← hsame, hlater.lookup]
    exact endsInNumber_synthetic base _

/-- Names drawn for a source name, for a name that was drawn before and for an
iterator, while others name what a later draw comes to. -/
def nestedDraws : List ScopeRequest :=
  [.intern "x", .freshFor ⟨1⟩, .replace ⟨1⟩ ⟨2⟩, .freshFor ⟨2⟩, .intern "x$iter$2",
    .fresh "x$iter", .restore ⟨1⟩ none, .fresh "x$0"]

theorem nestedDraws_apart :
    nestedDraws.countP (·.isDraw) < UInt32.size ∧ DrawnApart nestedDraws ∧
      (reached nestedDraws 8).table.texts = #["", "x", "x$0", "x$0$1", "x$iter$2", "x$0$3"] := by
  have hfew : nestedDraws.countP (·.isDraw) < UInt32.size := by decide
  exact ⟨hfew, drawnApart_of_few nestedDraws hfew, by decide⟩

/-! ### Requests read as texts -/

/-- The names that come with the request are names of the table. -/
def Given (t : Interner) : ScopeRequest → Prop
  | .fresh _ | .intern _ => True
  | .freshFor source => source.index < t.size
  | .replace name other => name.index < t.size ∧ other.index < t.size
  | .restore name previous => name.index < t.size ∧ ∀ m ∈ previous, m.index < t.size

/-- What a scope of texts does for a request, with the texts of its names. -/
def serveTexts (t : Interner) (s : NameScope) : ScopeRequest → NameScope
  | .fresh base => (s.fresh base).2
  | .freshFor source => (s.fresh (t.lookup source)).2
  | .replace name other => (s.replace (t.lookup name) (t.lookup other)).2
  | .restore name previous => s.restore (t.lookup name) (previous.map t.lookup)
  | .intern _ => s

/-- A scope over an interner does for a request what the scope of its texts
does, and its names stay names of the table. -/
theorem read_serve (ht : st.table.Sound) (hs : st.scope.Within st.table)
    (hq : Given st.table q) (hnext : q.isDraw = true → st.scope.next.toNat + 1 < UInt32.size) :
    (st.serve q).scope.read (st.serve q).table =
        serveTexts st.table (st.scope.read st.table) q ∧
      (st.serve q).scope.Within (st.serve q).table := by
  have hgrown := st.within_serve q
  cases q with
  | fresh base => exact ⟨InternedScope.read_fresh hs (hnext rfl) base, hs.grown hgrown⟩
  | freshFor source => exact ⟨InternedScope.read_fresh hs (hnext rfl) _, hs.grown hgrown⟩
  | replace name other =>
    refine ⟨?_, hs.set hq.1 fun m hm => ?_⟩
    · rw [serveTexts, InternedScope.read_replace ht hs hq.1]
      rfl
    · obtain rfl := Option.some.inj hm
      exact hq.2
  | restore name previous =>
    exact ⟨InternedScope.read_set ht hs hq.1 previous, hs.set hq.1 hq.2⟩
  | intern text => exact ⟨InternedScope.read_grown hs hgrown, hs.grown hgrown⟩

end SharedScope

end TreeLowering
