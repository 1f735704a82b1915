import TreeLowering.Proofs.Isolation
import TreeLowering.Proofs.Shared.Backend
import TreeLowering.Proofs.Shared.Store
set_option autoImplicit false

/-!
# Proofs: functions are lowered in isolation over shared tables

Two backends for one program may number types and texts differently, hold different
names in their caches and go through hash maps in different orders.  Each stands for the
backend that lowers among types and texts, and so they answer alike.
-/

namespace TreeLowering.Shared

open Tables Tabled

/-- What there is to see of a lowered function: the text of its method, unless it was
malformed, and the diagnostics of the problems met. -/
abbrev Answer : Type := Option String × List Diagnostic

/-- What there is to see of a lowered function, with names looked up in the tables. -/
def Lowered.answer (t : Tables) (x : Lowered) : Answer :=
  (x.method?.map (Target.Method.text t.names), x.problems)

/-- What there is to see of a function lowered among types and texts. -/
def answerOf (M : TreeLowering.Model) : Except LowerError TreeLowering.Target.Method →
    List TreeLowering.Problem → Except Halt Answer
  | .error .endlessType, _ => .error .endless
  | .error _, Ps => .ok (none, Ps.map (·.diagnostic M))
  | .ok method, Ps => .ok (some method.text, Ps.map (·.diagnostic M))

theorem answerOf_eq {M : TreeLowering.Model} {X : TreeLowering.Lowered}
    (h : X.outcome ≠ .error .endlessType) :
    answerOf M X.outcome X.problems =
      .ok (X.method?.map (·.text), X.problems.map (·.diagnostic M)) := by
  obtain ⟨outcome, problems, names⟩ := X
  cases outcome with
  | ok method => rfl
  | error e =>
    cases e with
    | noParameterLists _ => rfl
    | missingSubjectVariable _ => rfl
    | endlessType => exact absurd rfl h

theorem Tables.HasYield.answer_eq {M : TreeLowering.Model} {t : Tables} {x : Lowered}
    {X : TreeLowering.Lowered} (h : HasYield M t x X) :
    answerOf M X.outcome X.problems = .ok (x.answer t) := by
  rw [answerOf_eq h.ne_endless, ← h.method?_read, ← h.problems, Option.map_map]
  rfl

namespace Backend

/-- Lowers a function, and shows what there is to see of it. -/
def answer (b : Backend) (f : Tree.Function) : Except Halt Answer :=
  (b.lower f).map fun out => out.1.answer out.2.tables

/-- Lowers functions, and shows what there is to see of each with names looked up at
the end. -/
def answers (b : Backend) (fs : List Tree.Function) : Except Halt (List Answer) :=
  (b.lowerEach fs).map fun out => out.1.map (Lowered.answer out.2.tables)

/-- Lowers functions, and shows what there is to see of one more. -/
def answerAfter (b : Backend) (fs : List Tree.Function) (f : Tree.Function) :
    Except Halt Answer :=
  (b.lowerEach fs).bind fun out => out.2.answer f

/-- What a function comes to among types and texts with nothing lowered before. -/
def alone (E : TreeLowering.Env) (F : TreeLowering.Tree.Function) : Except Halt Answer :=
  answerOf E.model (E.lowerAlone .empty F).outcome (E.lowerAlone .empty F).problems

/-- A new backend for a program that is in sound tables, which may hold anything else,
and with any order of the arguments in a hash map. -/
inductive Fresh (M : TreeLowering.Model) (config : Config) : Backend → Prop where
  | new {m : Model} {t : Tables} {order : PoolSubst → PoolSubst} {b : Backend}
      (hsound : t.Sound) (hmodel : t.HasModel m M) (horder : ∀ s, (order s).Perm s)
      (hnew : Backend.new m t order config = .ok b) : Fresh M config b

/-- No position or name was left. -/
def RanOut {α : Type} (x : Except Halt α) : Prop := ∃ t : Tables, t.Full ∧ x = .error (.full t)

/-- Both come to the same, unless one of them ran out of positions or names. -/
def Agree {α : Type} (x y : Except Halt α) : Prop := RanOut x ∨ RanOut y ∨ x = y

variable {M : TreeLowering.Model} {config : Config} {b c : Backend} {f g : Tree.Function}
  {fs gs : List Tree.Function} {B : TreeLowering.Backend} {F : TreeLowering.Tree.Function}
  {Fs Gs : List TreeLowering.Tree.Function}

theorem Agree.of_same {α : Type} {x y z : Except Halt α} (hx : RanOut x ∨ x = z)
    (hy : RanOut y ∨ y = z) : Agree x y := by
  rcases hx with hx | rfl
  · exact .inl hx
  · exact .inr (hy.imp_right Eq.symm)

theorem Fresh.reads (h : Fresh M config b) :
    b.Reads ⟨.of M config, .new config.limits, .empty⟩ := by
  obtain ⟨hsound, hmodel, horder, hnew⟩ := h
  unfold Backend.new at hnew
  split at hnew
  · cases hnew
  · cases hnew
    exact ⟨hsound, ⟨hmodel, rfl, rfl, horder⟩, fun _ he => absurd he List.not_mem_nil, rfl, rfl⟩

/-- Whatever was lowered before, a function comes to what it comes to alone. -/
theorem Reads.answer (h : b.Reads B) (hf : b.tables.HasFunction f F) :
    RanOut (b.answer f) ∨ b.answer f = alone B.env F := by
  obtain ⟨houtcome, hproblems⟩ := B.env.lowerAlone_isolated .empty B.table F
  have hends := h.lower hf
  unfold Backend.answer alone
  rw [houtcome, hproblems]
  generalize b.lower f = out at hends
  cases hends with
  | full hfull => exact .inl ⟨_, hfull, rfl⟩
  | endless hendless =>
    rw [hendless]
    exact .inr rfl
  | answer _ _ hx => exact .inr hx.answer_eq.symm

/-- Lowering functions one after the other comes to an end when it does so for each of
them alone. -/
theorem Reads.not_endless {X : TreeLowering.Lowered} (hB : B.env = .of M config)
    (hends : ∀ F ∈ Fs, alone (.of M config) F ≠ .error .endless) (hX : X ∈ B.lowerings Fs) :
    X.outcome ≠ .error .endlessType := by
  intro hendless
  have hview := TreeLowering.Backend.lowerings_eq_map B ⟨.of M config, .new config.limits, .empty⟩
    hB (answerOf M) Fs
  have hmem := List.mem_map_of_mem (f := fun X => answerOf M X.outcome X.problems) hX
  rw [hview] at hmem
  obtain ⟨F, hF, halone⟩ := List.mem_map.mp hmem
  refine hends F hF (halone.trans ?_)
  rw [hendless]
  rfl

/-- The answers of a whole run are those that each function comes to alone. -/
theorem Fresh.answers (h : Fresh M config b) (hfs : Each HasFunction b.tables fs Fs)
    (hends : ∀ F ∈ Fs, alone (.of M config) F ≠ .error .endless) :
    RanOut (b.answers fs) ∨
      ∃ xs, b.answers fs = .ok xs ∧ xs.map Except.ok = Fs.map (alone (.of M config)) := by
  have hrun := h.reads.lowerEach hfs
  unfold Backend.answers
  generalize b.lowerEach fs = out at hrun
  cases hrun with
  | full hfull => exact .inl ⟨_, hfull, rfl⟩
  | endless hX hendless => exact absurd hendless (Reads.not_endless rfl hends hX)
  | @answer xs last _ _ hxs =>
    have hview := hxs.map_eq (f := fun x => Except.ok (x.answer last.tables))
      (g := fun X => answerOf M X.outcome X.problems) fun x _ X hx => hx.answer_eq.symm
    refine .inr ⟨_, rfl, ?_⟩
    rw [List.map_map]
    exact hview.trans (TreeLowering.Backend.lowerings_eq_map _ _ rfl (answerOf M) Fs)

/-- After any functions, a function comes to what it comes to alone. -/
theorem Fresh.answerAfter (h : Fresh M config b) (hfs : Each HasFunction b.tables fs Fs)
    (hends : ∀ F ∈ Fs, alone (.of M config) F ≠ .error .endless)
    (hf : b.tables.HasFunction f F) :
    RanOut (b.answerAfter fs f) ∨ b.answerAfter fs f = alone (.of M config) F := by
  have hrun := h.reads.lowerEach hfs
  unfold Backend.answerAfter
  generalize b.lowerEach fs = out at hrun
  cases hrun with
  | full hfull => exact .inl ⟨_, hfull, rfl⟩
  | endless hX hendless => exact absurd hendless (Reads.not_endless rfl hends hX)
  | answer hgrown hlast _ =>
    have hanswer := hlast.answer (Stays.mono hf hgrown)
    rwa [TreeLowering.Backend.env_lowerEach] at hanswer

/-- Take two new backends for one program, each with numbers of its own for types and
texts, and lower functions that have an end, after which the tables, the numbers and the
cached names are different.  A function gets from the first one the answer that it gets
alone from the second one, and that it gets from the second one after the functions
there; and the answers of the two whole runs are the same wherever the function is,
whatever other functions there are. -/
theorem lowerEach_isolated (hb : Fresh M config b) (hc : Fresh M config c)
    (hfs : Each HasFunction b.tables fs Fs) (hgs : Each HasFunction c.tables gs Gs)
    (hends : ∀ F ∈ Fs ++ Gs, alone (.of M config) F ≠ .error .endless)
    (hf : b.tables.HasFunction f F) (hg : c.tables.HasFunction g F) :
    Agree (b.answerAfter fs f) (c.answer g) ∧ Agree (b.answerAfter fs f) (c.answerAfter gs g) ∧
      ∀ i j : Nat, Fs[i]? = Gs[j]? →
        Agree ((b.answers fs).map (·[i]?)) ((c.answers gs).map (·[j]?)) := by
  have hfirst : ∀ F ∈ Fs, _ := fun F hF => hends F (List.mem_append_left _ hF)
  have hsecond : ∀ F ∈ Gs, _ := fun F hF => hends F (List.mem_append_right _ hF)
  have hafter := hb.answerAfter hfs hfirst hf
  refine ⟨.of_same hafter (hc.reads.answer hg), .of_same hafter (hc.answerAfter hgs hsecond hg),
    fun i j hplace => ?_⟩
  obtain ⟨t, hfull, hout⟩ | ⟨xs, hxs, hwhole⟩ := hb.answers hfs hfirst
  · exact .inl ⟨t, hfull, by rw [hout]; rfl⟩
  obtain ⟨t, hfull, hout⟩ | ⟨ys, hys, hwhole'⟩ := hc.answers hgs hsecond
  · exact .inr (.inl ⟨t, hfull, by rw [hout]; rfl⟩)
  have hinj : Function.Injective (Except.ok : Answer → Except Halt Answer) :=
    fun _ _ => Except.ok.inj
  have hsame : xs[i]? = ys[j]? := Option.map_injective hinj (by
    rw [← List.getElem?_map, ← List.getElem?_map, hwhole, hwhole', List.getElem?_map,
      List.getElem?_map, hplace])
  refine .inr (.inr ?_)
  rw [hxs, hys]
  exact congrArg Except.ok hsame

/-! ## A method that boxes its result -/

/-- `Object one() => 1;`. -/
def boxingModel : TreeLowering.Model where
  decls := #[{ Declaration.bare "one" .method "demo" none with
    ty := some Language.objectTy, paramLists := [[]] }]
  params := #[]

/-- The method's tree. -/
def boxingFunction : TreeLowering.Tree.Function :=
  ⟨⟨22⟩, [.ret .dummy (some (.integer ⟨Language.integerTy, true, .dummy⟩ 1))], .dummy⟩

/-- Tables in which nothing is stored yet. -/
def emptyTables : Tables := ⟨.new, .new⟩

/-- Stores the program and then the function. -/
def programFirst : Tabled (Model × Tree.Function) := do
  let m ← storeModel boxingModel
  let f ← storeFunction boxingFunction
  pure (m, f)

/-- Stores the function and then the program. -/
def functionFirst : Tabled (Model × Tree.Function) := do
  let f ← storeFunction boxingFunction
  let m ← storeModel boxingModel
  pure (m, f)

/-- A backend for what is stored in empty tables, and the function. -/
def started (store : Tabled (Model × Tree.Function)) (order : PoolSubst → PoolSubst) :
    Option (Backend × Tree.Function) := do
  let ((m, f), t) ← (store emptyTables).toOption
  let b ← (Backend.new m t order .standard).toOption
  pure (b, f)

/-- The program and the function, in the tables. -/
structure HasBoxing (t : Tables) (x : Model × Tree.Function) (_ : Unit) : Prop where
  model : t.HasModel x.1 boxingModel
  function : t.HasFunction x.2 boxingFunction

instance : Stays HasBoxing := ⟨fun h hu => ⟨h.model.mono hu, Stays.mono h.function hu⟩⟩

theorem tells_programFirst (t : Tables) : Tells t programFirst HasBoxing () :=
  (tells_storeModel (by decide)).bind fun _ _ _ _ hm => (tells_storeFunction _).bind
    fun _ _ hu _ hf => Tells.pure ⟨hm.mono hu, hf⟩

theorem tells_functionFirst (t : Tables) : Tells t functionFirst HasBoxing () :=
  (tells_storeFunction _).bind fun _ _ _ _ hf => (tells_storeModel (by decide)).bind
    fun _ _ hu _ hm => Tells.pure ⟨hm, Stays.mono hf hu⟩

theorem started_fresh {store : Tabled (Model × Tree.Function)}
    {order : PoolSubst → PoolSubst} (hstore : Tells emptyTables store HasBoxing ())
    (horder : ∀ s, (order s).Perm s) (hstarted : started store order = some (b, f)) :
    Fresh boxingModel .standard b ∧ b.tables.HasFunction f boxingFunction := by
  have hempty : emptyTables.Sound := ⟨TypePool.sound_new, Interner.sound_new, by decide⟩
  have hends := hstore emptyTables (.refl _) hempty
  unfold started at hstarted
  generalize store emptyTables = out at hends hstarted
  match out, hends with
  | .error _, _ => cases hstarted
  | .ok ((m, g), t), ⟨_, hsound, hboth⟩ =>
    -- the standard settings are accepted
    have hnew : Backend.new m t order .standard =
        .ok ⟨⟨m, .standard, TreeLowering.Env.ample, order⟩, t, [],
          .new Config.standard.limits⟩ := rfl
    cases hstarted
    exact ⟨.new hsound hboth.model horder hnew, hboth.function⟩

/-- The root class has different positions in the two backends, and the first one has
cached a name when it lowers the method again. -/
theorem boxingFunction_isolated : ∃ b c f g x last,
    started programFirst id = some (b, f) ∧ started functionFirst List.reverse = some (c, g) ∧
      b.env.model.builtins.object ≠ c.env.model.builtins.object ∧
      b.lower f = .ok (x, last) ∧ last.cache ≠ [] ∧ b.answerAfter [f] f = c.answer g := by
  have hruns : (do
      let x ← started programFirst id
      let y ← started functionFirst List.reverse
      let out ← (x.1.lower x.2).toOption
      some (x.1.env.model.builtins.object != y.1.env.model.builtins.object &&
        !out.2.cache.isEmpty && (x.1.answerAfter [x.2] x.2).isOk && (y.1.answer y.2).isOk)) =
      some true := by decide +kernel
  have halone : (alone (.of boxingModel .standard) boxingFunction).isOk = true := by decide +kernel
  have hends : ∀ F ∈ [boxingFunction] ++ [],
      alone (.of boxingModel .standard) F ≠ .error .endless := by
    intro F hF hendless
    obtain rfl := List.mem_singleton.mp hF
    rw [hendless] at halone
    cases halone
  obtain ⟨⟨b, f⟩, hb, hruns⟩ := Option.bind_eq_some_iff.mp hruns
  obtain ⟨⟨c, g⟩, hc, hruns⟩ := Option.bind_eq_some_iff.mp hruns
  obtain ⟨⟨x, last⟩, hrun, hruns⟩ := Option.bind_eq_some_iff.mp hruns
  simp only [Option.some.injEq, Bool.and_eq_true, bne_iff_ne, Bool.not_eq_true',
    List.isEmpty_eq_false_iff] at hruns
  obtain ⟨⟨⟨hdiffer, hcache⟩, hfirst⟩, hsecond⟩ := hruns
  replace hrun : b.lower f = .ok (x, last) := by
    cases hout : b.lower f with
    | error _ => rw [hout] at hrun; cases hrun
    | ok out => rw [hout] at hrun; cases hrun; rfl
  obtain ⟨hfresh, hf⟩ := started_fresh (tells_programFirst _) (fun _ => .refl _) hb
  obtain ⟨hfresh', hg⟩ := started_fresh (tells_functionFirst _) List.reverse_perm hc
  refine ⟨b, c, f, g, x, last, hb, hc, hdiffer, hrun, hcache, ?_⟩
  obtain ⟨t, -, hfull⟩ | ⟨t, -, hfull⟩ | hsame :=
    (lowerEach_isolated hfresh hfresh' (.cons hf .nil) .nil hends hf hg).1
  · rw [hfull] at hfirst
    cases hfirst
  · rw [hfull] at hsecond
    cases hsecond
  · exact hsame

end Backend

end TreeLowering.Shared
