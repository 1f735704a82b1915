import TreeLowering.Lowering.Loop
import TreeLowering.Proofs.Behaviour.Expression
import TreeLowering.Proofs.Behaviour.Simulation
set_option autoImplicit false

/-!
# Behaviour: loops over something iterable

The lowered loop keeps an iterator in a hidden slot.  On each round the iterator
holds the elements that are left, so its head is absent exactly when none is
left, as long as no element is the absent value.
-/

namespace TreeLowering.Behaviour

open TreeLowering.Behaviour.Frame (Same)
open Lowering (Yields)
open TreeLowering.Tree (Expr LoopBinding)

variable {machine : Machine} {env : Env} {s t s' : LowerState} {K : Frame} {it : String}
  {guard : Option String}

/-! ## Heads of iterators -/

theorem read_cons (x : String) (v : Value) (ρ : Locals) : Locals.read x ((x, v) :: ρ) = pure v := by
  simp [Locals.read]

theorem read_cons_ne {x y : String} (h : y ≠ x) (v : Value) (ρ : Locals) :
    Locals.read x ((y, v) :: ρ) = Locals.read x ρ := by
  simp [Locals.read, List.lookup_cons, beq_false_of_ne (Ne.symm h)]

theorem does_headOf {ρ : Locals} {vs : List Value} (h : ρ.read it = pure (.iter vs)) :
    Does ρ (machine.evalCode (headOf it)) (pure (vs.head?.getD .absent)) := by
  have hhead : Does ρ (machine.evalCode (headOf it)) (do
      let v ← pure (.iter vs)
      machine.send v Support.head []) := Machine.does_get Support.head (Machine.does_read h)
  rw [pure_bind] at hhead
  exact hhead

/-! ## What a loop binds on each round -/

/-- A bound variable holds what its value does. -/
theorem bindElement_yields (machine : Machine) {var : Tree.Variable} {value : Target.Expr} {t : Ty}
    {stmt : Target.Stmt} (h : Yields (env.bindElement var value t) s stmt s') :
    s.Follows s' ∧ ∃ ty init, stmt = .declareFinal var.name ty init ∧
      ∀ {ρ : Locals} {a : Act Value}, Does ρ (machine.evalCode value) a →
        Does ρ (machine.evalCode init) a := by
  -- The value may be cast first; whatever is seen of it then is converted and declared.
  have hseen : ∀ {seen : Target.Expr} {s₁}, s.Follows s₁ →
      (∀ {ρ : Locals} {a : Act Value}, Does ρ (machine.evalCode value) a →
        Does ρ (machine.evalCode seen) a) →
      Yields (do
        let form ← env.valueForm var.ty
        let init ← env.convert seen true var.ty form
        let ty ← env.lowerType var.ty .plain
        pure (.declareFinal var.name ty init)) s₁ stmt s' →
      s.Follows s' ∧ ∃ ty init, stmt = .declareFinal var.name ty init ∧
        ∀ {ρ : Locals} {a : Act Value}, Does ρ (machine.evalCode value) a →
          Does ρ (machine.evalCode init) a := by
    intro seen s₁ hfollows hdoes h
    obtain ⟨form, s₂, hform, h⟩ := Lowering.yields_bind.mp h
    obtain ⟨init, s₃, hinit, h⟩ := Lowering.yields_bind.mp h
    obtain ⟨ty, s₄, hty, h⟩ := Lowering.yields_bind.mp h
    obtain ⟨rfl, rfl⟩ := Lowering.yields_pure.mp h
    refine ⟨((hfollows.trans (.ofType hform)).trans (follows_convert hinit)).trans (.ofType hty),
      ty, init, rfl, fun hvalue => ?_⟩
    exact does_convert hinit (fun hraw => Bool.noConfusion hraw) (hdoes hvalue)
  unfold Env.bindElement at h
  dsimp only at h
  split at h
  · exact hseen (.refl s) id h
  · obtain ⟨cls, s₁, hcls, h⟩ := Lowering.yields_bind.mp h
    exact hseen (.ofType hcls) (Machine.does_cast cls) h

/-- What is bound on a round stands above the frame on both sides. -/
def Bound (s : LowerState) (K : Frame) (ρ τ : Locals) : Prop :=
  ∃ M : Frame, ρ = (M ++ K).source ∧ τ = (M ++ K).target ∧ Fits s (M ++ K)

theorem run_bindRound_keyItem (v : Value) (key item : Tree.Variable) (ρ : Locals) :
    (machine.bindRound v (.keyItem key item)).run ρ = (do
      let k ← machine.send v Support.entryKey []
      let i ← machine.send v Support.entryItem []
      pure ((), (item.name, i) :: (key.name, k) :: ρ)) := by
  unfold Machine.bindRound
  rw [(Does.lift (machine.send v Support.entryKey [])).run_bind]
  refine bind_congr (fun k => ?_)
  exact (Does.lift (machine.send v Support.entryItem [])).run_bind _

/-- The lowered bindings of a loop bind what the loop binds on each round. -/
theorem bindHead_binds (machine : Machine) {element : Ty} {binding : LoopBinding}
    {stmts : List Target.Stmt}
    (h : Yields (env.bindHead it element binding) s stmts s') (hit : ¬ Plain it)
    (hnames : ∀ x ∈ binding.names, Plain x ∧ s.names.find? x = none) :
    s.Follows s' ∧ (∀ stmt ∈ stmts, ∃ d, stmt = .declare d) ∧
      ∀ {K v vs}, Fits s' K → K.target.read it = pure (.iter (v :: vs)) →
        Agree (fun r r' => Bound s' K r.2 r'.2) ((machine.bindRound v binding).run K.source)
          ((machine.runAll stmts).run K.target) := by
  cases binding with
  | value var =>
    obtain ⟨stmt, s₁, hstmt, h⟩ := Lowering.yields_bind.mp h
    obtain ⟨rfl, rfl⟩ := Lowering.yields_pure.mp h
    obtain ⟨hfollows, ty, init, rfl, hinit⟩ := bindElement_yields machine hstmt
    refine ⟨hfollows, fun stmt hmem => ⟨_, List.mem_singleton.mp hmem⟩, fun hK hread => ?_⟩
    obtain ⟨hplain, hfree⟩ := hnames var.name List.mem_cons_self
    rw [Machine.runAll_single, Machine.run_declareFinal (hinit (does_headOf hread)), map_pure]
    exact .pure ⟨[.shared var.name var.name _], rfl, rfl,
      hK.declare hplain ((hfollows.find _).trans hfree) _⟩
  | keyItem key item =>
    obtain ⟨keyStmt, s₁, hkey, h⟩ := Lowering.yields_bind.mp h
    obtain ⟨itemStmt, s₂, hitem, h⟩ := Lowering.yields_bind.mp h
    obtain ⟨rfl, rfl⟩ := Lowering.yields_pure.mp h
    obtain ⟨hfollows, ty, init, rfl, hinit⟩ := bindElement_yields machine hkey
    obtain ⟨hfollows', ty', init', rfl, hinit'⟩ := bindElement_yields machine hitem
    have hboth := hfollows.trans hfollows'
    refine ⟨hboth, fun stmt hmem => ?_, fun {K v vs} hK hread => ?_⟩
    · rcases List.mem_cons.mp hmem with rfl | hmem
      · exact ⟨_, rfl⟩
      · exact ⟨_, List.mem_singleton.mp hmem⟩
    · obtain ⟨hplain, hfree⟩ := hnames key.name List.mem_cons_self
      obtain ⟨hplain', hfree'⟩ := hnames item.name (List.mem_cons_of_mem _ List.mem_cons_self)
      have hkeyDoes := hinit (Machine.does_get Support.entryKey (does_headOf hread))
      rw [Machine.runAll_cons, Run.andNext, StateT.run_bind, Machine.run_declareFinal hkeyDoes,
        Machine.runAll_single, bind_map_left]
      rw [run_bindRound_keyItem]
      simp only [List.head?_cons, Option.getD_some, pure_bind]
      refine Agree.bind (.refl _) (fun k _ hk => ?_)
      subst hk
      have hread' : Locals.read it ((key.name, k) :: K.target) = pure (.iter (v :: vs)) := by
        have hne : key.name ≠ it := by
          rintro rfl
          exact hit hplain
        rw [read_cons_ne hne, hread]
      have hitemDoes := hinit' (Machine.does_get Support.entryItem (does_headOf hread'))
      rw [Machine.run_declareFinal hitemDoes, map_eq_pure_bind]
      simp only [List.head?_cons, Option.getD_some, pure_bind]
      refine Agree.bind (.refl _) (fun i _ hi => ?_)
      subst hi
      exact .pure ⟨[.shared item.name item.name i, .shared key.name key.name k], rfl, rfl,
        (hK.declare hplain ((hboth.find _).trans hfree) k).declare hplain'
          ((hboth.find _).trans hfree') i⟩

/-! ## Rounds -/

/-- A round of the lowered loop: it steps the iterator after the body. -/
def Machine.iteratorRound (machine : Machine) (it : String) (code : Run Flow) :
    Run (Option Flow) := do
  if ← truth (← machine.evalCode (.binary .ne (headOf it) .null)) then do
    match ← code with
    | .normal => do
      let _ ← machine.evalAll [.assign (.ident it) (.get (.ident it) Support.tail)]
      pure (some .normal)
    | flow => pure (some flow)
  else pure none

/-- The loop of the tree and that of the code end alike, with the iterator
above the frame. -/
def Looped (guard : Option String) (it : String) (K : Frame) (r r' : Flow × Locals) : Prop :=
  r'.1 = r.1.outside ∧
    ∃ w L, Same (K.after guard r.1) L ∧ r.2 = L.source ∧ r'.2 = (it, w) :: L.target

theorem Looped.trans {L : Frame} {r r' : Flow × Locals} (h : Looped guard it L r r')
    (hsame : Same K L) : Looped guard it K r r' := by
  obtain ⟨hflow, w, M, hM, hsource, htarget⟩ := h
  exact ⟨hflow, w, M, (hsame.after guard r.1).trans hM, hsource, htarget⟩

theorem run_tail (vs : List Value) (ρ : Locals) :
    (machine.evalAll [.assign (.ident it) (.get (.ident it) Support.tail)]).run
        ((it, .iter vs) :: ρ) =
      pure ([.iter vs.tail], (it, .iter vs.tail) :: ρ) := by
  have htail : Does ((it, .iter vs) :: ρ) (machine.evalCode (.get (.ident it) Support.tail)) (do
      let v ← pure (.iter vs)
      machine.send v Support.tail []) :=
    Machine.does_get Support.tail (Machine.does_read (read_cons it (.iter vs) ρ))
  have hwrite : (Run.assign it (.iter vs.tail)).run ((it, .iter vs) :: ρ) =
      pure ((), (it, .iter vs.tail) :: ρ) := by
    have hwrite? : Locals.write? it (.iter vs.tail) ((it, .iter vs) :: ρ) =
        some ((it, .iter vs.tail) :: ρ) := if_pos rfl
    show (fun ρ' => ((), ρ')) <$> Locals.write it (.iter vs.tail) ((it, .iter vs) :: ρ) = _
    rw [Locals.write, hwrite?, map_pure]
  rw [pure_bind] at htail
  simp only [Machine.evalAll, Machine.evalCode, bind_assoc, pure_bind]
  rw [htail.run_bind]
  have hsend : machine.send (.iter vs) Support.tail [] = pure (.iter vs.tail) := rfl
  rw [hsend, pure_bind, StateT.run_bind, hwrite, pure_bind]
  rfl

theorem does_headPresent (vs : List Value) (ρ : Locals) :
    Does ((it, .iter vs) :: ρ)
      (do truth (← machine.evalCode (.binary .ne (headOf it) .null)))
      (pure (!(vs.head?.getD .absent).isAbsent)) := by
  have hhead : Does ((it, .iter vs) :: ρ) (machine.evalCode (headOf it))
      (pure (vs.head?.getD .absent)) := does_headOf (read_cons it (.iter vs) ρ)
  have hpresent := Machine.does_present hhead
  rw [map_pure] at hpresent
  exact hpresent

theorem run_iteratorRound (code : Run Flow) (vs : List Value) (ρ : Locals) :
    (machine.iteratorRound it code).run ((it, .iter vs) :: ρ) =
      if (vs.head?.getD .absent).isAbsent then pure (none, (it, .iter vs) :: ρ)
      else (do
        match ← code with
        | .normal => do
          let _ ← machine.evalAll [.assign (.ident it) (.get (.ident it) Support.tail)]
          pure (some .normal)
        | flow => pure (some flow) : Run (Option Flow)).run ((it, .iter vs) :: ρ) := by
  unfold Machine.iteratorRound
  rw [← bind_assoc, (does_headPresent vs ρ).run_bind, pure_bind]
  cases (vs.head?.getD .absent).isAbsent <;> rfl

theorem Frame.after_hidden {flow : Flow} {w : Value} (hguard : ∀ g, guard = some g → it ≠ g) :
    Frame.after guard flow (.hidden it w :: K) = .hidden it w :: K.after guard flow := by
  unfold Frame.after
  split
  · rename_i g
    rw [Frame.put, if_neg (hguard g rfl)]
  · rfl

theorem Fits.set_hidden {v w : Value} (h : Fits s (.hidden it v :: K)) :
    Fits s (.hidden it w :: K) where
  linked := h.linked
  replaced := h.replaced
  slots slot hmem := by
    rcases List.mem_cons.mp hmem with rfl | hmem
    · exact h.slots (.hidden it v) List.mem_cons_self
    · exact h.slots slot (List.mem_cons_of_mem _ hmem)
  guard := h.guard

/-- A loop over the elements of a sequence ends as the loop that steps an
iterator over them. -/
theorem Agree.forEach (machine : Machine) {body : Value → Run Flow} {code : Run Flow}
    (hguard : ∀ g, guard = some g → it ≠ g)
    (hbody : ∀ v vs (K : Frame), Fits s (.hidden it (.iter (v :: vs)) :: K) →
      Agree (Scoped guard (.hidden it (.iter (v :: vs)) :: K)) ((body v).run K.source)
        (code.run ((it, .iter (v :: vs)) :: K.target))) (fuel : Nat) :
    ∀ vs (K : Frame), Fits s (.hidden it (.iter vs) :: K) →
      Agree (Looped guard it K) ((Behaviour.forEach body fuel vs).run K.source)
        ((Behaviour.loop (machine.iteratorRound it code) fuel).run
          ((it, .iter vs) :: K.target)) := by
  induction fuel with
  | zero => exact fun _ _ _ => .halt .outOfFuel
  | succ fuel ih =>
    intro vs K hK
    unfold Behaviour.loop
    rw [StateT.run_bind, run_iteratorRound]
    cases vs with
    | nil =>
      exact .pure ⟨rfl, _, K, by rw [Frame.after_normal]; exact .refl K, rfl, rfl⟩
    | cons v vs =>
      unfold Behaviour.forEach
      rw [List.head?_cons, Option.getD_some]
      cases v.isAbsent with
      | true => exact .absentElement
      | false =>
        rw [if_neg Bool.false_ne_true, if_neg Bool.false_ne_true, StateT.run_bind,
          StateT.run_bind, bind_assoc]
        refine (hbody v vs K hK).bind ?_
        rintro ⟨flow, ρ⟩ ⟨flow', τ⟩ ⟨hflow, M, hsame, hsource, htarget⟩
        cases hflow
        cases hsource
        cases htarget
        rw [Frame.after_hidden hguard] at hsame
        cases hsame with
        | @hidden _ L _ _ hsame =>
          cases flow with
          | normal =>
            rw [Frame.after_normal] at hsame
            have hrest := (ih vs L (hK.set_hidden.same (.hidden it (.iter vs) hsame))).mono
              (fun r r' (hr : Looped guard it L r r') => hr.trans hsame)
            have hstep : (do
                let _ ← machine.evalAll [.assign (.ident it) (.get (.ident it) Support.tail)]
                Pure.pure (some Flow.normal) : Run (Option Flow)).run
                  ((it, .iter (v :: vs)) :: L.target) =
                Pure.pure (some Flow.normal, (it, .iter vs) :: L.target) := by
              rw [StateT.run_bind, run_tail]
              rfl
            simp only [Frame.target, hstep]
            exact hrest
          | leave => exact .pure ⟨rfl, _, L, hsame, rfl, rfl⟩
          | ret v => exact .pure ⟨rfl, _, L, hsame, rfl, rfl⟩

/-! ## Loops as statements -/

/-- A lowered loop without its body: it draws an iterator, realizes the subject,
and its bindings bind what the loop binds on each round. -/
structure Heads (machine : Machine) (env : Env) (binding : LoopBinding) (subject : Expr)
    (head : LoopHead) (s s' : LowerState) : Prop where
  drawn : Drawn s head.iterator s'
  subject : Realizes machine env subject head.subject s s'
  declares : ∀ stmt ∈ head.bindings, ∃ d, stmt = .declare d
  binds : ∀ {K v vs}, Fits s' K → K.target.read head.iterator = pure (.iter (v :: vs)) →
    Agree (fun r r' => Bound s' K r.2 r'.2) ((machine.bindRound v binding).run K.source)
      ((machine.runAll head.bindings).run K.target)

theorem elementFound_follows {subject : Expr} {found : Option Ty} {element : Ty}
    (h : Yields (Env.elementFound subject found) s element s') : s.Follows s' := by
  cases found with
  | some t =>
    obtain ⟨_, rfl⟩ := Lowering.yields_pure.mp h
    exact .refl _
  | none =>
    obtain ⟨_, s₁, hproblem, h⟩ := Lowering.yields_bind.mp h
    obtain ⟨_, rfl⟩ := Lowering.yields_pure.mp h
    obtain rfl := Lowering.yields_change.mp hproblem
    exact .of_eq rfl rfl

theorem loopHead_heads {binding : LoopBinding} {subject : Expr} {head : LoopHead}
    (hregular : subject.regular = true)
    (hnames : ∀ x ∈ binding.names, Plain x ∧ s.names.find? x = none)
    (h : Yields (env.loopHead binding subject) s head s') :
    Heads machine env binding subject head s s' := by
  obtain ⟨element, s₁, helement, h⟩ := Lowering.yields_bind.mp h
  obtain ⟨iterator, s₂, hfresh, h⟩ := Lowering.yields_bind.mp h
  obtain ⟨iteratorType, s₃, htype, h⟩ := Lowering.yields_bind.mp h
  obtain ⟨code, s₄, hsubject, h⟩ := Lowering.yields_bind.mp h
  obtain ⟨bindings, s₅, hbindings, h⟩ := Lowering.yields_bind.mp h
  obtain ⟨rfl, rfl⟩ := Lowering.yields_pure.mp h
  have hdrawn : Drawn s iterator s₃ :=
    .before (elementFound_follows helement) ((Drawn.fresh hfresh).after (.ofType htype))
  obtain ⟨hfollows, hdoes⟩ := lowerExpr_realizes machine hregular hsubject
  have hbefore : s.Follows s₄ := hdrawn.follows.trans hfollows
  have hfree : ∀ x ∈ binding.names, Plain x ∧ s₄.names.find? x = none :=
    fun x hx => ⟨(hnames x hx).1, (hbefore.find x).trans (hnames x hx).2⟩
  obtain ⟨hfollows', hdeclares, hbinds⟩ :=
    bindHead_binds machine hbindings hdrawn.below.not_plain hfree
  exact ⟨hdrawn.after (hfollows.trans hfollows'),
    ⟨hbefore.trans hfollows', fun K hK => hdoes K (hK.follows hdrawn.follows)⟩,
    hdeclares, hbinds⟩

/-- A loop, left or not, has ended on the two sides of the frame. -/
def Left (guard : Option String) (K : Frame) (r r' : Flow × Locals) : Prop :=
  r'.1 = r.1.outside ∧ ∃ L, Same (K.after guard r.1) L ∧ r.2 = L.source ∧ r'.2 = L.target

theorem send_iterator (v : Value) :
    machine.send v Support.iterator [] =
      match v with
      | .seq vs => pure (.iter vs)
      | _ => halt .stuck := by
  cases v <;> rfl

theorem runCode_loop (head : LoopHead) (body : List Target.Stmt) :
    machine.runCode (head.loop body) = Run.inScope (do
      let v ← machine.evalCode (head.subject.get Support.iterator)
      Run.declare head.iterator v
      loop (machine.iteratorRound head.iterator
        (Run.inScope (machine.runAll (head.bindings ++ body)))) machine.rounds) := by
  simp only [LoopHead.loop, Machine.runCode, Machine.declareVars, Machine.declareVar,
    Machine.evalOption, bind_assoc, pure_bind]
  rfl

/-- The rounds of a loop over the elements of its subject. -/
def Machine.overElements (machine : Machine) (env : Env) (subject : Expr)
    (body : Value → Run Flow) : Run Flow := do
  match ← Run.reading (machine.evalTree env · subject) with
  | .seq vs => forEach body machine.rounds vs
  | _ => halt .stuck

/-- A lowered loop ends as the loop does, if its rounds do. -/
theorem loop_agrees {binding : LoopBinding} {subject : Expr} {head : LoopHead}
    {body : Value → Run Flow} {code : List Target.Stmt}
    (hhead : Heads machine env binding subject head s s')
    (hbody : ∀ v vs (K : Frame), Fits s' (.hidden head.iterator (.iter (v :: vs)) :: K) →
      Agree (Scoped s.loopGuard (.hidden head.iterator (.iter (v :: vs)) :: K))
        ((body v).run K.source)
        ((Run.inScope (machine.runAll (head.bindings ++ code))).run
          ((head.iterator, .iter (v :: vs)) :: K.target)))
    (hK : Fits s K) :
    Agree (Left s.loopGuard K) ((machine.overElements env subject body).run K.source)
      ((machine.runCode (head.loop code)).run K.target) := by
  have hguard : ∀ g, s.loopGuard = some g → head.iterator ≠ g :=
    fun g hg => hK.guard_ne hhead.drawn.new hg
  have hsubject := Machine.does_get Support.iterator (hhead.subject.2 K hK)
  rw [runCode_loop]
  have hscope : ∀ (x : Run Flow) (ρ : Locals), (Run.inScope x).run ρ =
      (fun r => (r.1, Locals.keep ρ.length r.2)) <$> x.run ρ := fun _ _ => rfl
  rw [hscope, hsubject.run_bind, Machine.overElements, run_reading_bind, bind_assoc, map_bind]
  refine Agree.bind (.refl _) (fun v _ hv => ?_)
  subst hv
  rw [send_iterator]
  cases v with
  | seq vs =>
    have hrounds := Agree.forEach machine hguard hbody machine.rounds vs K
      (hK.hide hhead.drawn (.iter vs))
    rw [← id_map ((forEach body machine.rounds vs).run K.source)]
    refine hrounds.map (fun r r' hr => ?_)
    obtain ⟨hflow, w, L, hsame, hsource, htarget⟩ := hr
    refine ⟨hflow, L, hsame, hsource, ?_⟩
    rw [htarget, ← Frame.length_target_after s.loopGuard r.1, hsame.length_target]
    exact Locals.keep_append [(head.iterator, w)] L.target
  | absent | bool _ | int _ | float _ | char _ | text _ | iter _ | entry _ _ | function _
  | object _ | statics => exact .halt .stuck

end TreeLowering.Behaviour
