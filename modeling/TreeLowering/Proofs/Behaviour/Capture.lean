import Mathlib.Algebra.Group.Nat.Defs
import Mathlib.Data.List.Nodup
import TreeLowering.Proofs.Behaviour.FunctionValue
import TreeLowering.Proofs.SyntheticName
set_option autoImplicit false

/-!
# Behaviour: capture

A function with several parameter lists is called with one list of arguments
after the other.  What its parameters mean in the end depends on their names:
the arguments of every `call` have the same fixed names, and a program may use
these as well.

A parameter of an earlier list is captured by an argument of a later list's
`call`, and an argument is hidden from its parameter by the local for an earlier
parameter of the same list.  Where neither happens every parameter means the
argument passed for it, and otherwise there are arguments with which some
parameter does not.
-/

namespace TreeLowering

/-- The names of parameters. -/
def Parameter.names (ps : List Parameter) : List String := ps.map (·.name)

namespace Behaviour

open Parameter (names)

/-! ## The locals of the body -/

/-- Locals for the parameters of a list from a position on, one after the
other. -/
def unpacked (arity : Nat) : Nat → List Parameter → Locals → Option Locals
  | _, [], ρ => some ρ
  | position, p :: ps, ρ => do
    let v ← Machine.arrived? arity position ρ
    unpacked arity (position + 1) ps ((p.name, v) :: ρ)

/-- The locals inside the function values for some parameter lists, once each
has been called. -/
def layered : List (List Parameter) → List (List Value) → Locals → Option Locals
  | list :: rest, args :: more, ρ => do
    let inner ← unpacked list.length 0 list (Machine.callLocals list.length args ++ ρ)
    layered rest more inner
  | _, _, ρ => some ρ

/-- The locals over which the body of a function runs. -/
def curriedLocals (around : Locals) : List (List Parameter) → List (List Value) → Option Locals
  | first :: rest, args :: more => layered rest more (((names first).zip args).reverse ++ around)
  | _, _ => some around

/-- Every parameter list is given as many arguments as it has parameters. -/
def Supplied (lists : List (List Parameter)) (argss : List (List Value)) : Prop :=
  argss.map List.length = lists.map List.length

theorem supplied_nil {argss : List (List Value)} : Supplied [] argss ↔ argss = [] := by
  simp [Supplied]

theorem supplied_cons {list : List Parameter} {rest : List (List Parameter)}
    {argss : List (List Value)} :
    Supplied (list :: rest) argss ↔
      ∃ args more, argss = args :: more ∧ args.length = list.length ∧ Supplied rest more := by
  cases argss with
  | nil => simp [Supplied]
  | cons args more =>
    simp only [Supplied, List.map_cons, List.cons.injEq]
    constructor
    · rintro ⟨hlength, hmore⟩
      exact ⟨args, more, ⟨rfl, rfl⟩, hlength, hmore⟩
    · rintro ⟨_, _, ⟨rfl, rfl⟩, hlength, hmore⟩
      exact ⟨hlength, hmore⟩

/-! ## Names and arguments -/

section

variable {xs : List String} {vs : List Value} {x : String} {v : Value} {ρ : Locals}

/-- A name that is not bound means what it means outside. -/
theorem lookup_unbound (h : x ∉ xs) : ((xs.zip vs).reverse ++ ρ).lookup x = ρ.lookup x := by
  induction xs generalizing vs ρ with
  | nil => rfl
  | cons y ys ih =>
    have hne : (x == y) = false := beq_eq_false_iff_ne.mpr (List.ne_of_not_mem_cons h)
    have hmem : x ∉ ys := List.not_mem_of_not_mem_cons h
    cases vs with
    | nil => rfl
    | cons w ws =>
      rw [List.zip_cons_cons, List.reverse_cons, List.append_assoc, ih hmem]
      simp only [List.cons_append, List.nil_append, List.lookup_cons, hne]

/-- Distinct names mean the values they are bound to. -/
theorem lookup_bound (hdistinct : xs.Nodup) (h : (x, v) ∈ xs.zip vs) :
    ((xs.zip vs).reverse ++ ρ).lookup x = some v := by
  induction xs generalizing vs ρ with
  | nil => contradiction
  | cons y ys ih =>
    obtain ⟨hfresh, hdistinct⟩ := List.nodup_cons.mp hdistinct
    cases vs with
    | nil => contradiction
    | cons w ws =>
      rw [List.zip_cons_cons, List.reverse_cons, List.append_assoc]
      rcases List.mem_cons.mp h with heq | hmem
      · cases heq
        rw [lookup_unbound hfresh]
        simp
      · exact ih hdistinct hmem

/-- What a bound name means is one of the values. -/
theorem exists_mem_lookup (ρ : Locals) (hmem : x ∈ xs) (hlength : vs.length = xs.length)
    (hdistinct : xs.Nodup) :
    ∃ w ∈ vs, ((xs.zip vs).reverse ++ ρ).lookup x = some w := by
  obtain ⟨i, hi, rfl⟩ := List.mem_iff_getElem.mp hmem
  refine ⟨vs[i], List.getElem_mem _, lookup_bound hdistinct ?_⟩
  exact List.mem_iff_getElem.mpr ⟨i, by simpa [hlength] using hi, List.getElem_zip⟩

end

theorem callArg_inj {i j : Nat} (h : Support.callArg i = Support.callArg j) : i = j := by
  have hlist := congrArg String.toList h
  simp only [Support.callArg, String.toList_append, Nat.toString_eq_repr, Nat.toList_repr,
    List.append_cancel_left_eq] at hlist
  exact toDigits_inj hlist

/-- The names that a `call` gives its arguments. -/
def callNames (arity : Nat) : List String := (Env.callParams arity).map (·.name)

/-- The name that an argument is read from. -/
def argumentName (arity position : Nat) : String :=
  if arity ≤ Support.maxFixedArity then Support.callArg position else Support.callArg 0

theorem callNames_of_fixed {arity : Nat} (h : arity ≤ Support.maxFixedArity) :
    callNames arity = (List.range arity).map Support.callArg := by
  unfold callNames Env.callParams
  rw [if_pos h, List.map_map]
  rfl

theorem callNames_of_variadic {arity : Nat} (h : ¬arity ≤ Support.maxFixedArity) :
    callNames arity = [Support.callArg 0] := by
  unfold callNames Env.callParams
  rw [if_neg h]
  rfl

theorem callNames_nodup (arity : Nat) : (callNames arity).Nodup := by
  by_cases h : arity ≤ Support.maxFixedArity
  · rw [callNames_of_fixed h]
    exact List.nodup_range.map fun _ _ => callArg_inj
  · rw [callNames_of_variadic h]
    exact List.nodup_singleton _

/-- What the arguments of a `call` are bound to: themselves, or one array. -/
def callValues (arity : Nat) (args : List Value) : List Value :=
  if arity ≤ Support.maxFixedArity then args else [.seq args]

theorem length_callValues {arity : Nat} {args : List Value} (h : args.length = arity) :
    (callValues arity args).length = (callNames arity).length := by
  unfold callValues
  by_cases hfixed : arity ≤ Support.maxFixedArity
  · rw [if_pos hfixed, callNames_of_fixed hfixed, List.length_map, List.length_range, h]
  · rw [if_neg hfixed, callNames_of_variadic hfixed]
    rfl

theorem callLocals_eq (arity : Nat) (args : List Value) :
    Machine.callLocals arity args = ((callNames arity).zip (callValues arity args)).reverse := by
  unfold Machine.callLocals callValues
  by_cases h : arity ≤ Support.maxFixedArity
  · rw [if_pos h, if_pos h, callNames_of_fixed h]
  · rw [if_neg h, if_neg h, callNames_of_variadic h]
    rfl

/-! ## Capture -/

/-- Every argument of a `call` for the list is found, and none is hidden by the
local for an earlier parameter. -/
structure Unhidden (list : List Parameter) : Prop where
  /-- An index into the array of arguments is a 32-bit word. -/
  reachable : list.length ≤ 2 ^ 31
  clear : ∀ i j (_ : i < j) (_ : j < list.length), list[i].name ≠ argumentName list.length j

/-- No parameter is taken for an argument of a `call`, nor an argument for
another parameter. -/
structure CaptureFree (lists : List (List Parameter)) : Prop where
  unhidden : ∀ list ∈ lists.tail, Unhidden list
  uncaptured : lists.Pairwise fun earlier list => ∀ p ∈ earlier, p.name ∉ callNames list.length

/-- Every parameter means the argument passed for it, and other names mean what
they mean outside. -/
structure Binds (around : Locals) (lists : List (List Parameter)) (argss : List (List Value))
    (ρ : Locals) : Prop where
  parameter : ∀ e ∈ (names lists.flatten).zip argss.flatten, ρ.lookup e.1 = some e.2
  outside : ∀ x, x ∉ names lists.flatten → (∀ list ∈ lists.tail, x ∉ callNames list.length) →
    ρ.lookup x = around.lookup x

/-! ### Without capture -/

section

variable {arity position : Nat} {ps : List Parameter} {x : String} {v : Value} {ρ : Locals}

theorem arrived?_cons (h : x ≠ argumentName arity position) :
    Machine.arrived? arity position ((x, v) :: ρ) = Machine.arrived? arity position ρ := by
  unfold Machine.arrived?
  unfold argumentName at h
  split
  · rename_i hfixed
    rw [if_pos hfixed] at h
    have hne : (Support.callArg position == x) = false := beq_eq_false_iff_ne.mpr h.symm
    rw [List.lookup_cons, hne]
  · rename_i hfixed
    rw [if_neg hfixed] at h
    have hne : (Support.callArg 0 == x) = false := beq_eq_false_iff_ne.mpr h.symm
    rw [List.lookup_cons, hne]

/-- A `call` finds its arguments where it is entered. -/
theorem arrived?_callLocals {args : List Value} (hlength : args.length = arity)
    (hreachable : arity ≤ 2 ^ 31) (h : position < args.length) :
    Machine.arrived? arity position (Machine.callLocals arity args ++ ρ) = some args[position] := by
  unfold Machine.arrived?
  rw [callLocals_eq]
  split
  · rename_i hfixed
    refine lookup_bound (callNames_nodup arity) ?_
    rw [callNames_of_fixed hfixed, callValues, if_pos hfixed]
    refine List.mem_iff_getElem.mpr ⟨position, by simpa [hlength] using hlength ▸ h, ?_⟩
    simp
  · rename_i hfixed
    have hindex : Int.bmod position 0x100000000 = position := by
      refine Int.bmod_eq_of_le ?_ ?_ <;> omega
    rw [callNames_of_variadic hfixed, callValues, if_neg hfixed, hindex]
    simp [h]

/-- Locals whose names hide no argument hold the arguments that arrive. -/
theorem unpacked_eq {vs : List Value} (hlength : vs.length = ps.length)
    (harrived : ∀ j (_ : j < vs.length), Machine.arrived? arity (position + j) ρ = some vs[j])
    (hclear : ∀ i j (_ : i < j) (_ : j < ps.length),
      ps[i].name ≠ argumentName arity (position + j)) :
    unpacked arity position ps ρ = some (((names ps).zip vs).reverse ++ ρ) := by
  induction ps generalizing position vs ρ with
  | nil => rfl
  | cons p ps ih =>
    match vs with
    | [] => contradiction
    | v :: vs =>
      have hfirst : Machine.arrived? arity position ρ = some v := harrived 0 (by simp)
      have hrest : ∀ j (_ : j < vs.length),
          Machine.arrived? arity (position + 1 + j) ((p.name, v) :: ρ) = some vs[j] := by
        intro j hj
        have hj' : j + 1 < (v :: vs).length := Nat.succ_lt_succ hj
        have hne : p.name ≠ argumentName arity (position + (j + 1)) :=
          hclear 0 (j + 1) (Nat.succ_pos j) (hlength ▸ hj')
        rw [Nat.add_assoc, Nat.add_comm 1 j, arrived?_cons hne, harrived (j + 1) hj']
        rfl
      have hclear' : ∀ i j (_ : i < j) (_ : j < ps.length),
          ps[i].name ≠ argumentName arity (position + 1 + j) := by
        intro i j hij hj
        rw [Nat.add_assoc, Nat.add_comm 1 j]
        exact hclear (i + 1) (j + 1) (Nat.succ_lt_succ hij) (Nat.succ_lt_succ hj)
      rw [unpacked, hfirst, Option.bind_eq_bind, Option.bind_some,
        ih (Nat.succ.inj hlength) hrest hclear']
      simp [names]

/-- The locals of a list that hides none of its arguments. -/
theorem unpacked_of_unhidden {list : List Parameter} {args : List Value}
    (hlength : args.length = list.length) (h : Unhidden list) :
    unpacked list.length 0 list (Machine.callLocals list.length args ++ ρ) =
      some (((names list).zip args).reverse ++ (Machine.callLocals list.length args ++ ρ)) := by
  refine unpacked_eq hlength (fun j hj => ?_) (fun i j hij hj => ?_)
  · rw [Nat.zero_add]
    exact arrived?_callLocals hlength h.reachable hj
  · rw [Nat.zero_add]
    exact h.clear i j hij hj

theorem lookup_callLocals (h : x ∉ callNames arity) (args : List Value) :
    (Machine.callLocals arity args ++ ρ).lookup x = ρ.lookup x := by
  rw [callLocals_eq]
  exact lookup_unbound h

end

theorem names_cons_flatten (list : List Parameter) (rest : List (List Parameter)) :
    names (list :: rest).flatten = names list ++ names rest.flatten :=
  List.map_append

theorem length_names (ps : List Parameter) : (names ps).length = ps.length := List.length_map _

/-- The names and arguments of all lists are those of the first and of the
rest. -/
theorem zip_cons_flatten {list : List Parameter} {rest : List (List Parameter)}
    {args : List Value} (hlength : args.length = list.length) (more : List (List Value)) :
    (names (list :: rest).flatten).zip (args :: more).flatten =
      (names list).zip args ++ (names rest.flatten).zip more.flatten := by
  rw [names_cons_flatten, List.flatten_cons,
    List.zip_append (by rw [length_names, hlength])]

theorem bound_rest {list : List Parameter} {rest : List (List Parameter)} {args : List Value}
    {more : List (List Value)} {ρ : Locals} (hlength : args.length = list.length)
    (h : ∀ e ∈ (names (list :: rest).flatten).zip (args :: more).flatten,
      ρ.lookup e.1 = some e.2) :
    ∀ e ∈ (names rest.flatten).zip more.flatten, ρ.lookup e.1 = some e.2 := by
  rw [zip_cons_flatten hlength] at h
  exact fun e he => h e (List.mem_append_right _ he)

/-- Parameters of one more list mean their arguments, if what comes after keeps
their names. -/
theorem bound_cons {list : List Parameter} {rest : List (List Parameter)} {args : List Value}
    {more : List (List Value)} {ρ ρ' : Locals} (hlength : args.length = list.length)
    (hdistinct : (names (list :: rest).flatten).Nodup)
    (hcaptured : ∀ l ∈ rest, ∀ p ∈ list, p.name ∉ callNames l.length)
    (hrest : ∀ e ∈ (names rest.flatten).zip more.flatten, ρ'.lookup e.1 = some e.2)
    (hkept : ∀ x, x ∉ names rest.flatten → (∀ l ∈ rest, x ∉ callNames l.length) →
      ρ'.lookup x = (((names list).zip args).reverse ++ ρ).lookup x) :
    ∀ e ∈ (names (list :: rest).flatten).zip (args :: more).flatten,
      ρ'.lookup e.1 = some e.2 := by
  intro e he
  rw [names_cons_flatten] at hdistinct
  obtain ⟨hlist, _, hapart⟩ := List.nodup_append'.mp hdistinct
  rw [zip_cons_flatten hlength] at he
  rcases List.mem_append.mp he with he | he
  · have hname : e.1 ∈ names list := (List.of_mem_zip he).1
    obtain ⟨p, hp, hpname⟩ := List.mem_map.mp hname
    have hlater : ∀ l ∈ rest, e.1 ∉ callNames l.length := fun l hl =>
      hpname ▸ hcaptured l hl p hp
    rw [hkept e.1 (hapart hname) hlater]
    exact lookup_bound hlist he
  · exact hrest e he

/-- Inside function values without capture, parameters mean their arguments and
names that the function values do not declare mean what they mean outside. -/
theorem layered_binds {lists : List (List Parameter)} (hdistinct : (names lists.flatten).Nodup)
    (hunhidden : ∀ list ∈ lists, Unhidden list)
    (huncaptured : lists.Pairwise fun earlier list => ∀ p ∈ earlier, p.name ∉ callNames list.length) :
    ∀ {argss : List (List Value)} (ρ : Locals), Supplied lists argss →
      ∃ ρ', layered lists argss ρ = some ρ' ∧
        (∀ e ∈ (names lists.flatten).zip argss.flatten, ρ'.lookup e.1 = some e.2) ∧
        ∀ x, x ∉ names lists.flatten → (∀ list ∈ lists, x ∉ callNames list.length) →
          ρ'.lookup x = ρ.lookup x := by
  induction lists with
  | nil =>
    intro argss ρ hsupplied
    obtain rfl := supplied_nil.mp hsupplied
    exact ⟨ρ, rfl, by simp [names], fun _ _ _ => rfl⟩
  | cons list rest ih =>
    intro argss ρ hsupplied
    obtain ⟨args, more, rfl, hlength, hmore⟩ := supplied_cons.mp hsupplied
    have hrest : (names rest.flatten).Nodup := by
      rw [names_cons_flatten] at hdistinct
      exact hdistinct.of_append_right
    obtain ⟨hcaptured, huncaptured⟩ := List.pairwise_cons.mp huncaptured
    obtain ⟨ρ', hlayered, hparameter, houtside⟩ :=
      ih hrest (fun l hl => hunhidden l (List.mem_cons_of_mem _ hl)) huncaptured
        (((names list).zip args).reverse ++ (Machine.callLocals list.length args ++ ρ)) hmore
    refine ⟨ρ', ?_, bound_cons hlength hdistinct hcaptured hparameter houtside,
      fun x hx hcall => ?_⟩
    · rw [layered, unpacked_of_unhidden hlength (hunhidden list List.mem_cons_self)]
      exact hlayered
    · rw [names_cons_flatten, List.mem_append, not_or] at hx
      rw [houtside x hx.2 (fun l hl => hcall l (List.mem_cons_of_mem _ hl)), lookup_unbound hx.1,
        lookup_callLocals (hcall list List.mem_cons_self)]

/-- Without capture the body runs over locals that bind every parameter. -/
theorem CaptureFree.binds {first : List Parameter} {rest : List (List Parameter)}
    (h : CaptureFree (first :: rest)) (hdistinct : (names (first :: rest).flatten).Nodup)
    {argss : List (List Value)} (around : Locals) (hsupplied : Supplied (first :: rest) argss) :
    ∃ ρ, curriedLocals around (first :: rest) argss = some ρ ∧
      Binds around (first :: rest) argss ρ := by
  obtain ⟨args, more, rfl, hlength, hmore⟩ := supplied_cons.mp hsupplied
  have hrest : (names rest.flatten).Nodup := by
    rw [names_cons_flatten] at hdistinct
    exact hdistinct.of_append_right
  obtain ⟨hcaptured, huncaptured⟩ := List.pairwise_cons.mp h.uncaptured
  obtain ⟨ρ, hlayered, hparameter, houtside⟩ :=
    layered_binds hrest h.unhidden huncaptured (((names first).zip args).reverse ++ around) hmore
  refine ⟨ρ, hlayered, bound_cons hlength hdistinct hcaptured hparameter houtside,
    fun x hx hcall => ?_⟩
  rw [names_cons_flatten, List.mem_append, not_or] at hx
  rw [houtside x hx.2 hcall, lookup_unbound hx.1]

/-! ### With capture -/

section

variable {arity position : Nat} {ps : List Parameter} {x : String} {v : Value} {ρ ρ' : Locals}

/-- Names that are no parameters of the list keep their meaning. -/
theorem lookup_of_unpacked (h : unpacked arity position ps ρ = some ρ') (hx : x ∉ names ps) :
    ρ'.lookup x = ρ.lookup x := by
  induction ps generalizing position ρ with
  | nil =>
    cases h
    rfl
  | cons p ps ih =>
    obtain ⟨w, _, hrest⟩ := Option.bind_eq_some_iff.mp h
    have hne : (x == p.name) = false := beq_eq_false_iff_ne.mpr (List.ne_of_not_mem_cons hx)
    rw [ih hrest (List.not_mem_of_not_mem_cons hx), List.lookup_cons, hne]

/-- If in the end every parameter means its argument, each argument arrived when
its local was declared. -/
theorem arrived?_of_unpacked {vs : List Value} (h : unpacked arity position ps ρ = some ρ')
    (hlength : vs.length = ps.length) (hdistinct : (names ps).Nodup)
    (hbound : ∀ e ∈ (names ps).zip vs, ρ'.lookup e.1 = some e.2) :
    ∀ j (_ : j < vs.length), Machine.arrived? arity (position + j)
      ((((names ps).take j).zip (vs.take j)).reverse ++ ρ) = some vs[j] := by
  induction ps generalizing position vs ρ with
  | nil =>
    intro j hj
    rw [hlength] at hj
    contradiction
  | cons p ps ih =>
    match vs with
    | [] => contradiction
    | v :: vs =>
      obtain ⟨w, hfirst, hrest⟩ := Option.bind_eq_some_iff.mp h
      obtain ⟨hfresh, hdistinct⟩ := List.nodup_cons.mp hdistinct
      -- nothing after it declares the name again
      have hvalue : some w = some v := by
        rw [← hbound (p.name, v) List.mem_cons_self, lookup_of_unpacked hrest hfresh,
          List.lookup_cons_self]
      cases hvalue
      intro j hj
      cases j with
      | zero => exact hfirst
      | succ j =>
        have hlater := ih hrest (Nat.succ.inj hlength) hdistinct
          (fun e he => hbound e (List.mem_cons_of_mem _ he)) j (Nat.lt_of_succ_lt_succ hj)
        rw [Nat.add_assoc, Nat.add_comm 1 j] at hlater
        simpa [names] using hlater

/-- If in the end every parameter of a list means its argument, and the
arguments are distinct and no arrays, then none was hidden. -/
theorem unhidden_of_unpacked {list : List Parameter} {args : List Value}
    (h : unpacked list.length 0 list ρ = some ρ') (hlength : args.length = list.length)
    (hdistinct : (names list).Nodup) (hargs : args.Nodup) (hplain : ∀ w ∈ args, ∀ us, w ≠ .seq us)
    (hbound : ∀ e ∈ (names list).zip args, ρ'.lookup e.1 = some e.2) : Unhidden list := by
  have harrived := arrived?_of_unpacked h hlength hdistinct hbound
  refine ⟨Nat.le_of_not_lt fun hlong => ?_, fun i j hij hj hname => ?_⟩
  · have hnone : ∀ σ : Locals, Machine.arrived? list.length (0 + 2 ^ 31) σ = none := by
      intro σ
      have hindex : ¬0 ≤ Int.bmod ((0 + 2 ^ 31 : Nat) : Int) 0x100000000 := by decide
      have hvariadic : ¬list.length ≤ Support.maxFixedArity := by
        unfold Support.maxFixedArity
        omega
      unfold Machine.arrived?
      rw [if_neg hvariadic]
      split
      · exact if_neg hindex
      · rfl
    have hpast := harrived (2 ^ 31) (hlength ▸ hlong)
    rw [hnone] at hpast
    contradiction
  · have hj' : j < args.length := hlength ▸ hj
    have hargument := harrived j hj'
    rw [Nat.zero_add] at hargument
    -- the local for the earlier parameter is what the later one is read from
    have hhidden : ((((names list).take j).zip (args.take j)).reverse ++ ρ).lookup
        (argumentName list.length j) = some args[i] := by
      refine lookup_bound (hdistinct.sublist (List.take_sublist _ _)) ?_
      refine List.mem_iff_getElem.mpr ⟨i, ?_, ?_⟩
      · simp only [List.length_zip, List.length_take, length_names]
        omega
      · simp [names, hname]
    unfold Machine.arrived? at hargument
    unfold argumentName at hhidden
    by_cases hfixed : list.length ≤ Support.maxFixedArity
    · rw [if_pos hfixed] at hargument hhidden
      rw [hhidden] at hargument
      have hsame : i = j := hargs.getElem_inj_iff.mp (Option.some.inj hargument)
      omega
    · rw [if_neg hfixed] at hargument hhidden
      rw [hhidden] at hargument
      split at hargument
      · rename_i us harray
        exact hplain args[i] (List.getElem_mem _) us (Option.some.inj harray)
      · contradiction

/-- A name that means a value which no later argument is has meant it before,
and names no argument of a later `call`. -/
theorem of_layered_lookup {lists : List (List Parameter)} (hx : x ∉ names lists.flatten)
    (hplain : ∀ us, v ≠ .seq us) :
    ∀ {argss : List (List Value)} {ρ : Locals}, Supplied lists argss →
      v ∉ argss.flatten → layered lists argss ρ = some ρ' → ρ'.lookup x = some v →
        (∀ list ∈ lists, x ∉ callNames list.length) ∧ ρ.lookup x = some v := by
  induction lists with
  | nil =>
    intro argss ρ hsupplied _ h hlookup
    obtain rfl := supplied_nil.mp hsupplied
    cases h
    exact ⟨by simp, hlookup⟩
  | cons list rest ih =>
    intro argss ρ hsupplied hv h hlookup
    obtain ⟨args, more, rfl, hlength, hmore⟩ := supplied_cons.mp hsupplied
    obtain ⟨inner, hinner, hlayered⟩ := Option.bind_eq_some_iff.mp h
    rw [names_cons_flatten, List.mem_append, not_or] at hx
    rw [List.flatten_cons, List.mem_append, not_or] at hv
    obtain ⟨hlater, hmeant⟩ := ih hx.2 hmore hv.2 hlayered hlookup
    rw [lookup_of_unpacked hinner hx.1] at hmeant
    have hcall : x ∉ callNames list.length := by
      intro hmem
      -- the name would mean an argument of this `call`, and none of them is the value
      obtain ⟨w, hw, hmeans⟩ :=
        exists_mem_lookup ρ hmem (length_callValues hlength) (callNames_nodup _)
      rw [callLocals_eq, hmeans] at hmeant
      cases hmeant
      unfold callValues at hw
      split at hw
      · exact hv.1 hw
      · exact hplain args (List.mem_singleton.mp hw)
    refine ⟨fun l hl => ?_, ?_⟩
    · rcases List.mem_cons.mp hl with rfl | hl
      · exact hcall
      · exact hlater l hl
    · rwa [lookup_callLocals hcall] at hmeant

/-- If in the end the parameters of a list mean their arguments, they did so
before the later lists, and none is named like a later argument. -/
theorem uncaptured_of_layered {list : List Parameter} {rest : List (List Parameter)}
    {args : List Value} {more : List (List Value)} (hlength : args.length = list.length)
    (hmore : Supplied rest more) (hdistinct : (names (list :: rest).flatten).Nodup)
    (hargs : (args :: more).flatten.Nodup) (hplain : ∀ w ∈ (args :: more).flatten, ∀ us, w ≠ .seq us)
    (h : layered rest more ρ = some ρ')
    (hbound : ∀ e ∈ (names (list :: rest).flatten).zip (args :: more).flatten,
      ρ'.lookup e.1 = some e.2) :
    (∀ l ∈ rest, ∀ p ∈ list, p.name ∉ callNames l.length) ∧
      ∀ e ∈ (names list).zip args, ρ.lookup e.1 = some e.2 := by
  rw [names_cons_flatten] at hdistinct
  obtain ⟨_, _, hapart⟩ := List.nodup_append'.mp hdistinct
  rw [List.flatten_cons] at hargs hplain
  obtain ⟨_, _, hdiffer⟩ := List.nodup_append'.mp hargs
  have hbefore : ∀ e ∈ (names list).zip args,
      (∀ l ∈ rest, e.1 ∉ callNames l.length) ∧ ρ.lookup e.1 = some e.2 := by
    intro e he
    obtain ⟨hname, hvalue⟩ := List.of_mem_zip he
    refine of_layered_lookup (hapart hname) (hplain e.2 (List.mem_append_left _ hvalue)) hmore
      (hdiffer hvalue) h (hbound e ?_)
    rw [zip_cons_flatten hlength]
    exact List.mem_append_left _ he
  refine ⟨fun l hl p hp => ?_, fun e he => (hbefore e he).2⟩
  obtain ⟨i, hi, rfl⟩ := List.mem_iff_getElem.mp hp
  have hpair : (list[i].name, args[i]) ∈ (names list).zip args :=
    List.mem_iff_getElem.mpr ⟨i, by simp [length_names, hlength, hi], by simp [names]⟩
  exact (hbefore _ hpair).1 l hl

/-- If distinct arguments that are no arrays all reach their parameters, then
nothing is captured. -/
theorem of_layered_binds {lists : List (List Parameter)}
    (hdistinct : (names lists.flatten).Nodup) :
    ∀ {argss : List (List Value)} {ρ : Locals}, Supplied lists argss → argss.flatten.Nodup →
      (∀ w ∈ argss.flatten, ∀ us, w ≠ .seq us) → layered lists argss ρ = some ρ' →
      (∀ e ∈ (names lists.flatten).zip argss.flatten, ρ'.lookup e.1 = some e.2) →
        (∀ list ∈ lists, Unhidden list) ∧
          lists.Pairwise fun earlier list => ∀ p ∈ earlier, p.name ∉ callNames list.length := by
  induction lists with
  | nil =>
    intro argss ρ _ _ _ _ _
    exact ⟨by simp, .nil⟩
  | cons list rest ih =>
    intro argss ρ hsupplied hargs hplain h hbound
    obtain ⟨args, more, rfl, hlength, hmore⟩ := supplied_cons.mp hsupplied
    obtain ⟨inner, hinner, hlayered⟩ := Option.bind_eq_some_iff.mp h
    obtain ⟨hcaptured, hlist⟩ :=
      uncaptured_of_layered hlength hmore hdistinct hargs hplain hlayered hbound
    rw [names_cons_flatten] at hdistinct
    rw [List.flatten_cons] at hargs hplain
    obtain ⟨hunhidden, huncaptured⟩ := ih hdistinct.of_append_right hmore hargs.of_append_right
      (fun w hw => hplain w (List.mem_append_right _ hw)) hlayered (bound_rest hlength hbound)
    have hfirst : Unhidden list :=
      unhidden_of_unpacked hinner hlength hdistinct.of_append_left hargs.of_append_left
        (fun w hw => hplain w (List.mem_append_left _ hw)) hlist
    refine ⟨fun l hl => ?_, List.pairwise_cons.mpr ⟨hcaptured, huncaptured⟩⟩
    rcases List.mem_cons.mp hl with rfl | hl
    · exact hfirst
    · exact hunhidden l hl

end

/-- Arguments that count from `k` on. -/
def numbered : Nat → List (List Parameter) → List (List Value)
  | _, [] => []
  | k, list :: rest =>
    (List.range' k list.length).map (fun n : Nat => Value.int n) :: numbered (k + list.length) rest

theorem supplied_numbered (lists : List (List Parameter)) : ∀ k, Supplied lists (numbered k lists) := by
  induction lists with
  | nil => exact fun _ => rfl
  | cons list rest ih =>
    intro k
    refine supplied_cons.mpr ⟨_, _, rfl, ?_, ih _⟩
    rw [List.length_map, List.length_range']

theorem flatten_numbered (lists : List (List Parameter)) : ∀ k,
    (numbered k lists).flatten =
      (List.range' k lists.flatten.length).map (fun n : Nat => Value.int n) := by
  induction lists with
  | nil => exact fun _ => rfl
  | cons list rest ih =>
    intro k
    rw [numbered, List.flatten_cons, ih, List.flatten_cons, List.length_append, ← List.map_append,
      List.range'_append_1]

theorem numbered_nodup (k : Nat) (lists : List (List Parameter)) :
    (numbered k lists).flatten.Nodup := by
  rw [flatten_numbered]
  refine List.Nodup.map (fun a b h => ?_) List.nodup_range'
  exact Int.ofNat.inj (Value.int.inj h)

theorem numbered_plain {k : Nat} {lists : List (List Parameter)} {w : Value}
    (hw : w ∈ (numbered k lists).flatten) (us : List Value) : w ≠ .seq us := by
  rw [flatten_numbered] at hw
  obtain ⟨n, _, rfl⟩ := List.mem_map.mp hw
  intro h
  contradiction

/-- If the body always runs over locals that bind every parameter, then nothing
is captured. -/
theorem CaptureFree.of_binds {first : List Parameter} {rest : List (List Parameter)}
    (hdistinct : (names (first :: rest).flatten).Nodup)
    (h : ∀ argss, Supplied (first :: rest) argss →
      ∃ ρ, curriedLocals [] (first :: rest) argss = some ρ ∧ Binds [] (first :: rest) argss ρ) :
    CaptureFree (first :: rest) := by
  have hsupplied := supplied_numbered (first :: rest) 0
  have hargs := numbered_nodup 0 (first :: rest)
  have hplain : ∀ w ∈ (numbered 0 (first :: rest)).flatten, ∀ us, w ≠ .seq us :=
    fun w hw us => numbered_plain hw us
  obtain ⟨ρ, hcurried, hbinds⟩ := h _ hsupplied
  obtain ⟨args, more, heq, hlength, hmore⟩ := supplied_cons.mp hsupplied
  rw [heq] at hcurried hargs hplain hbinds
  have hbound := hbinds.parameter
  obtain ⟨hcaptured, _⟩ :=
    uncaptured_of_layered hlength hmore hdistinct hargs hplain hcurried hbound
  rw [names_cons_flatten] at hdistinct
  rw [List.flatten_cons] at hargs hplain
  obtain ⟨hunhidden, huncaptured⟩ := of_layered_binds hdistinct.of_append_right hmore
    hargs.of_append_right (fun w hw => hplain w (List.mem_append_right _ hw)) hcurried
      (bound_rest hlength hbound)
  exact ⟨hunhidden, List.pairwise_cons.mpr ⟨hcaptured, huncaptured⟩⟩

end Behaviour

end TreeLowering
