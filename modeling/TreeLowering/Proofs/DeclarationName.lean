import TreeLowering.Lowering.Naming
import Mathlib.Tactic.ByContra
set_option autoImplicit false

/-!
# Proofs: names of declarations

The qualified name of a class, interface or object can be read back.  Its last
part, after a dot or a dollar sign, is the declaration's own name, and what is
before it tells what is around the declaration.  So the names of different
declarations are different, as far as names next to each other are.

A declaration inside a method is named as if it stood at the top level of its
package, so it counts as a neighbour of the declarations there.
-/

namespace TreeLowering

/-! ## Reading names back -/

/-- A character that ends the part of a name before a declaration's own. -/
def isSeparator (c : Char) : Bool := c == '.' || c == '$'

/-- A name without separators. -/
def Undivided (name : String) : Prop := ∀ c ∈ name.toList, isSeparator c = false

instance (name : String) : Decidable (Undivided name) :=
  decidable_of_iff (name.toList.all (fun c => !isSeparator c) = true) (by simp [Undivided])

/-- A text that a declaration's own name can follow: empty, or ended by a
separator. -/
def Closed (s : String) : Prop := ∀ c ∈ s.toList.getLast?, isSeparator c = true

/-- The characters after the last separator. -/
def lastPart (cs : List Char) : List Char :=
  (cs.reverse.takeWhile fun c => !isSeparator c).reverse

theorem lastPart_append {before name : String} (hbefore : Closed before) (hname : Undivided name) :
    lastPart (before ++ name).toList = name.toList := by
  have hstart : before.toList.reverse.takeWhile (fun c => !isSeparator c) = [] := by
    cases hlast : before.toList.reverse with
    | nil => rfl
    | cons c cs =>
      have hsep : isSeparator c = true := hbefore c (by rw [← List.head?_reverse, hlast]; rfl)
      simp [hsep]
  unfold lastPart
  rw [String.toList_append, List.reverse_append, List.takeWhile_append_of_pos, hstart]
  · simp
  · intro c hc
    simp [hname c (List.mem_reverse.mp hc)]

/-- A name is read back from what it follows. -/
theorem eq_of_append_eq {before before' name name' : String} (hbefore : Closed before)
    (hbefore' : Closed before') (hname : Undivided name) (hname' : Undivided name')
    (h : before ++ name = before' ++ name') : before = before' ∧ name = name' := by
  have hlast : name.toList = name'.toList := by
    rw [← lastPart_append hbefore hname, h, lastPart_append hbefore' hname']
  obtain rfl := String.toList_inj.mp hlast
  exact ⟨(String.append_left_inj name).mp h, rfl⟩

namespace Model

variable {m : Model} {d e : DeclId}

/-! ## Containers -/

/-- Every container is declared before what it contains. -/
def ContainersFirst (m : Model) : Prop :=
  ∀ d ∈ m.declIds, ∀ c ∈ (m.decl d).container, c.index < d.index

instance (m : Model) : Decidable m.ContainersFirst := inferInstanceAs (Decidable (∀ _ ∈ _, _))

theorem mem_declIds : d ∈ m.declIds ↔ d.index < m.declCount := by
  obtain ⟨i⟩ := d
  simp [declIds]

theorem ContainersFirst.lt (h : m.ContainersFirst) {c : DeclId}
    (hc : (m.decl d).container = some c) : c.index < d.index ∧ d.index < m.declCount := by
  by_cases hlt : d.index < m.declCount
  · exact ⟨h d (mem_declIds.mpr hlt) c hc, hlt⟩
  · rw [decl_eq_default (Nat.le_of_not_lt hlt)] at hc
    contradiction

/-! A model to which declarations are added, inside ones that it has, declares
containers first. -/

theorem decl_addDecl (m : Model) (x : Declaration) (d : DeclId) :
    (m.addDecl x).2.decl d = if d.index = m.declCount then x else m.decl d := by
  have hcount : m.declCount = Language.decls.size + m.decls.size := rfl
  unfold addDecl decl
  dsimp only
  cases hd : Language.decls[d.index]? with
  | some y =>
    have hlt := (Array.getElem?_eq_some_iff.mp hd).1
    simp only [if_neg (show d.index ≠ m.declCount by omega)]
  | none =>
    have hle := Array.getElem?_eq_none_iff.mp hd
    simp only [Array.getElem?_push]
    by_cases hlast : d.index = m.declCount
    · rw [if_pos hlast, if_pos (by omega)]
      rfl
    · rw [if_neg hlast, if_neg (by omega)]

theorem decl_modifyDecl (m : Model) (d e : DeclId) (f : Declaration → Declaration) :
    (m.modifyDecl d f).decl e = f (m.decl e) ∨ (m.modifyDecl d f).decl e = m.decl e := by
  unfold modifyDecl
  by_cases hd : d.index < Language.decls.size
  · rw [if_pos hd]
    exact .inr rfl
  · rw [if_neg hd]
    unfold decl
    dsimp only
    cases Language.decls[e.index]? with
    | some y => exact .inr rfl
    | none =>
      simp only [Array.getElem?_modify]
      by_cases hsame : d.index - Language.decls.size = e.index - Language.decls.size
      · rw [if_pos hsame]
        cases m.decls[e.index - Language.decls.size]? with
        | none => exact .inr rfl
        | some y => exact .inl rfl
      · rw [if_neg hsame]
        exact .inr rfl

theorem declCount_addDecl (m : Model) (x : Declaration) :
    (m.addDecl x).2.declCount = m.declCount + 1 := by
  simp [addDecl, declCount, Nat.add_assoc]

theorem declCount_modifyDecl (m : Model) (d : DeclId) (f : Declaration → Declaration) :
    (m.modifyDecl d f).declCount = m.declCount := by
  unfold modifyDecl
  split <;> simp [declCount]

theorem ContainersFirst.new : Model.new.ContainersFirst := by decide

theorem ContainersFirst.addDecl (h : m.ContainersFirst) {x : Declaration}
    (hx : ∀ c ∈ x.container, c.index < m.declCount) : (m.addDecl x).2.ContainersFirst := by
  intro d hd c hc
  rw [mem_declIds, declCount_addDecl] at hd
  rw [decl_addDecl] at hc
  split at hc
  · rename_i hlast
    rw [hlast]
    exact hx c hc
  · exact h d (mem_declIds.mpr (by omega)) c hc

theorem ContainersFirst.modifyDecl (h : m.ContainersFirst) (d : DeclId)
    {f : Declaration → Declaration} (hf : ∀ x, (f x).container = x.container) :
    (m.modifyDecl d f).ContainersFirst := by
  intro e he c hc
  rw [mem_declIds, declCount_modifyDecl] at he
  have hcontainer : ((m.modifyDecl d f).decl e).container = (m.decl e).container := by
    rcases decl_modifyDecl m d e f with heq | heq <;> rw [heq]
    exact hf _
  exact h e (mem_declIds.mpr he) c (hcontainer ▸ hc)

/-- There are no more containers than declarations before this one. -/
theorem ContainersFirst.containersWithin_succ (h : m.ContainersFirst) {fuel : Nat}
    (hfuel : d.index ≤ fuel) : m.containersWithin (fuel + 1) d = m.containersWithin fuel d := by
  induction fuel generalizing d with
  | zero =>
    cases hc : (m.decl d).container with
    | none => simp [containersWithin, hc]
    | some c =>
      have := (h.lt hc).1
      omega
  | succ fuel ih =>
    rw [containersWithin, containersWithin]
    cases hc : (m.decl d).container with
    | none => rfl
    | some c =>
      have := (h.lt hc).1
      simp only [ih (show c.index ≤ fuel by omega)]

theorem ContainersFirst.containers_eq (h : m.ContainersFirst) {c : DeclId}
    (hc : (m.decl d).container = some c) : m.containers d = c :: m.containers c := by
  obtain ⟨hlt, hcount⟩ := h.lt hc
  obtain ⟨n, hn⟩ : ∃ n, m.declCount = n + 1 := ⟨m.declCount - 1, by omega⟩
  unfold containers
  rw [hn, containersWithin, hc]
  simp only [h.containersWithin_succ (show c.index ≤ n by omega)]

theorem enclosingType?_eq_some {c : DeclId} :
    m.enclosingType? d = some c ↔ (m.decl d).container = some c ∧ (m.decl c).isClassLike = true :=
  Option.filter_eq_some_iff

/-- What is around a member is what it is a member of, and what is around
that. -/
theorem ContainersFirst.enclosingTypes_eq (h : m.ContainersFirst) {c : DeclId}
    (hc : m.enclosingType? d = some c) : m.enclosingTypes d = c :: m.enclosingTypes c := by
  obtain ⟨hcontainer, hclass⟩ := enclosingType?_eq_some.mp hc
  unfold enclosingTypes
  rw [h.containers_eq hcontainer, List.takeWhile_cons, if_pos hclass]

theorem enclosingTypes_eq_nil (hd : m.enclosingType? d = none) : m.enclosingTypes d = [] := by
  unfold enclosingTypes containers
  cases m.declCount with
  | zero => rfl
  | succ n =>
    rw [containersWithin]
    cases hc : (m.decl d).container with
    | none => rfl
    | some c =>
      have hclass : ¬ (m.decl c).isClassLike = true := by
        intro hclass
        rw [enclosingType?_eq_some.mpr ⟨hc, hclass⟩] at hd
        contradiction
      rw [List.takeWhile_cons, if_neg hclass]

/-! ## What is before a declaration's own name -/

theorem spelling_companion (m : Model) (d : DeclId) :
    m.spelling d ⟨true, true⟩ = m.spelling d .full ++ Support.companionSuffix := by
  simp only [spelling, Spelling.full]
  cases m.enclosingTypes d <;> rfl

/-- What a declaration's own name follows. -/
inductive Origin where
  /-- The name of the package, if it has one. -/
  | package (name : String)
  /-- The type that a member interface is lifted out of. -/
  | lifted (outer : DeclId)
  /-- The class, or the companion of the interface, that a class is a member
  of. -/
  | member (outer : DeclId)
  deriving DecidableEq, Repr

/-- The origin as it is written, with its separator. -/
def Origin.text (m : Model) : Origin → String
  | package name => if name.isEmpty then "" else name ++ "."
  | lifted outer => m.spelling outer .full ++ Support.liftedSeparator
  | member outer => m.spelling outer ⟨true, (m.decl outer).isInterface⟩ ++ "."

/-- The separator at the end of an origin. -/
def Origin.separator? : Origin → Option Char
  | package name => if name.isEmpty then none else some '.'
  | lifted _ => some '$'
  | member _ => some '.'

/-- What the declaration is a member of. -/
def Origin.outer? : Origin → Option DeclId
  | package _ => none
  | lifted outer | member outer => some outer

/-- The origin of a class, interface or object. -/
def origin (m : Model) (d : DeclId) : Origin :=
  match m.enclosingType? d with
  | none => .package (m.decl d).package
  | some outer => if (m.decl d).isInterface then .lifted outer else .member outer

theorem Origin.getLast?_text (o : Origin) : (o.text m).toList.getLast? = o.separator? := by
  cases o with
  | package name =>
    simp only [text, separator?]
    split <;> simp
  | lifted _ | member _ => simp [text, separator?, Support.liftedSeparator]

theorem Origin.closed_text (o : Origin) : Closed (o.text m) := by
  intro c hc
  rw [o.getLast?_text] at hc
  cases o with
  | package name =>
    simp only [separator?] at hc
    split at hc
    · contradiction
    · cases hc
      rfl
  | lifted _ | member _ =>
    cases hc
    rfl

theorem outer?_origin (m : Model) (d : DeclId) : (m.origin d).outer? = m.enclosingType? d := by
  unfold origin
  split
  · simp [Origin.outer?, *]
  · split <;> simp [Origin.outer?, *]

theorem package_of_origin {name : String} (h : m.origin d = .package name) :
    name = (m.decl d).package := by
  unfold origin at h
  split at h
  · cases h
    rfl
  · split at h <;> contradiction

/-- Only an interface is lifted. -/
theorem separator?_origin_of_class (h : (m.decl d).isInterface = false) :
    (m.origin d).separator? ≠ some '$' := by
  unfold origin
  split
  · simp only [Origin.separator?]
    split <;> simp
  · simp [h, Origin.separator?]

/-- A qualified name is the origin and then the declaration's own name. -/
theorem ContainersFirst.spelling_full (h : m.ContainersFirst) (d : DeclId) :
    m.spelling d .full = (m.origin d).text m ++ (m.decl d).name := by
  unfold spelling origin Spelling.full
  cases hd : m.enclosingType? d with
  | none =>
    rw [enclosingTypes_eq_nil hd]
    simp only [if_true, nestedName, companionEnd, Bool.false_eq_true, if_false, Origin.text]
    split <;> simp
  | some outer =>
    rw [h.enclosingTypes_eq hd]
    simp only [if_true, nestedName, companionEnd, Bool.false_eq_true, if_false]
    split <;> rfl

/-! ## Distinct names -/

/-- The classes, interfaces and objects of a model. -/
def typeDecls (m : Model) : List DeclId := m.declIds.filter fun d => (m.decl d).isClassLike

theorem mem_typeDecls :
    d ∈ m.typeDecls ↔ d ∈ m.declIds ∧ (m.decl d).isClassLike = true := List.mem_filter

theorem ContainersFirst.enclosingType?_mem (h : m.ContainersFirst) {c : DeclId}
    (hc : m.enclosingType? d = some c) : c ∈ m.typeDecls ∧ c.index < d.index := by
  obtain ⟨hcontainer, hclass⟩ := enclosingType?_eq_some.mp hc
  obtain ⟨hlt, hcount⟩ := h.lt hcontainer
  exact ⟨mem_typeDecls.mpr ⟨mem_declIds.mpr (Nat.lt_trans hlt hcount), hclass⟩, hlt⟩

/-- Classes, interfaces and objects next to each other have different names
without separators, and no package is named as one of them or as its companion.
Next to each other are the members of one class or interface, and all those of a
package that are no members. -/
structure DistinctNames (m : Model) : Prop where
  undivided : ∀ d ∈ m.typeDecls, Undivided (m.decl d).name
  siblings : ∀ d ∈ m.typeDecls, ∀ e ∈ m.typeDecls, m.enclosingType? d = m.enclosingType? e →
    (m.enclosingType? d = none → (m.decl d).package = (m.decl e).package) →
    (m.decl d).name = (m.decl e).name → d = e
  packages : ∀ r ∈ m.typeDecls, m.enclosingType? r = none → ∀ d ∈ m.typeDecls, ∀ companion,
    (m.decl r).package ≠ m.spelling d ⟨true, companion⟩

instance (m : Model) : Decidable m.DistinctNames :=
  decidable_of_iff
    ((∀ d ∈ m.typeDecls, Undivided (m.decl d).name) ∧
      (∀ d ∈ m.typeDecls, ∀ e ∈ m.typeDecls, m.enclosingType? d = m.enclosingType? e →
        (m.enclosingType? d = none → (m.decl d).package = (m.decl e).package) →
        (m.decl d).name = (m.decl e).name → d = e) ∧
      ∀ r ∈ m.typeDecls, m.enclosingType? r = none → ∀ d ∈ m.typeDecls, ∀ companion,
        (m.decl r).package ≠ m.spelling d ⟨true, companion⟩)
    ⟨fun h => ⟨h.1, h.2.1, h.2.2⟩, fun h => ⟨h.undivided, h.siblings, h.packages⟩⟩

/-- Equal qualified names have equal origins and end in the same name. -/
theorem DistinctNames.split (hnames : m.DistinctNames) (hfirst : m.ContainersFirst)
    (hd : d ∈ m.typeDecls) (he : e ∈ m.typeDecls) (h : m.spelling d .full = m.spelling e .full) :
    (m.origin d).text m = (m.origin e).text m ∧ (m.decl d).name = (m.decl e).name := by
  rw [hfirst.spelling_full, hfirst.spelling_full] at h
  exact eq_of_append_eq (Origin.closed_text _) (Origin.closed_text _) (hnames.undivided d hd)
    (hnames.undivided e he) h

/-- A companion's name is read back as that of a lifted interface with the name
that companions end in. -/
theorem DistinctNames.split_companion (hnames : m.DistinctNames) (hfirst : m.ContainersFirst)
    (he : e ∈ m.typeDecls) (h : m.spelling d ⟨true, true⟩ = m.spelling e .full) :
    (m.origin e).text m = m.spelling d .full ++ "$" ∧ (m.decl e).name = "impl" := by
  have hclosed : Closed (m.spelling d .full ++ "$") := by
    intro c hc
    simp only [String.toList_append, List.getLast?_append] at hc
    cases hc
    rfl
  have hcompanion : m.spelling d ⟨true, true⟩ = m.spelling d .full ++ "$" ++ "impl" := by
    rw [spelling_companion, String.append_assoc]
    rfl
  rw [hcompanion, hfirst.spelling_full e] at h
  have himpl : Undivided "impl" := by simp [Undivided, isSeparator]
  obtain ⟨horigin, hname⟩ := eq_of_append_eq hclosed (Origin.closed_text _) himpl
    (hnames.undivided e he) h
  exact ⟨horigin.symm, hname.symm⟩

/-- A class is not named as a companion is. -/
theorem DistinctNames.companion_ne_class (hnames : m.DistinctNames) (hfirst : m.ContainersFirst)
    (he : e ∈ m.typeDecls) (hclass : (m.decl e).isInterface = false) :
    m.spelling d ⟨true, true⟩ ≠ m.spelling e .full := by
  intro h
  apply separator?_origin_of_class hclass
  rw [← Origin.getLast?_text (m := m), (hnames.split_companion hfirst he h).1]
  simp

/-! ## Reading origins back -/

/-- The package is named as no declaration, and the type around is declared. -/
def Origin.Declared (m : Model) : Origin → Prop
  | package name => ∀ d ∈ m.typeDecls, ∀ companion, name ≠ m.spelling d ⟨true, companion⟩
  | lifted outer | member outer => outer ∈ m.typeDecls

theorem DistinctNames.declared_origin (hnames : m.DistinctNames) (hfirst : m.ContainersFirst)
    (hd : d ∈ m.typeDecls) : (m.origin d).Declared m := by
  have houter := outer?_origin m d
  cases ho : m.origin d with
  | package name =>
    rw [package_of_origin ho]
    rw [ho] at houter
    exact hnames.packages d hd houter.symm
  | lifted outer | member outer =>
    rw [ho] at houter
    exact (hfirst.enclosingType?_mem houter.symm).1

/-- Companions and classes are read back as far as qualified names are. -/
theorem DistinctNames.outer_inj (hnames : m.DistinctNames) (hfirst : m.ContainersFirst)
    (hd : d ∈ m.typeDecls) (he : e ∈ m.typeDecls)
    (hfull : m.spelling d .full = m.spelling e .full → d = e)
    (h : m.spelling d ⟨true, (m.decl d).isInterface⟩ = m.spelling e ⟨true, (m.decl e).isInterface⟩) :
    d = e := by
  apply hfull
  cases hdi : (m.decl d).isInterface <;> cases hei : (m.decl e).isInterface <;> rw [hdi, hei] at h
  · exact h
  · exact absurd h.symm (hnames.companion_ne_class hfirst hd hdi)
  · exact absurd h (hnames.companion_ne_class hfirst he hei)
  · rw [spelling_companion, spelling_companion] at h
    exact (String.append_left_inj _).mp h

/-- An origin is read back from how it is written, as far as qualified names
are. -/
theorem DistinctNames.text_inj (hnames : m.DistinctNames) (hfirst : m.ContainersFirst)
    {o o' : Origin} (ho : o.Declared m) (ho' : o'.Declared m)
    (hfull : ∀ x ∈ o.outer?, ∀ x' ∈ m.typeDecls, m.spelling x .full = m.spelling x' .full → x = x')
    (h : o.text m = o'.text m) : o = o' := by
  have hseparator : o.separator? = o'.separator? := by
    rw [← Origin.getLast?_text (m := m), h, Origin.getLast?_text]
  have hpackage : ∀ {name x}, (Origin.package name).Declared m → x ∈ m.typeDecls →
      (Origin.package name).text m ≠ (Origin.member x).text m := by
    intro name x hname hx htext
    simp only [Origin.text] at htext
    split at htext
    · simp at htext
    · exact hname x hx _ ((String.append_left_inj ".").mp htext)
  cases o with
  | package name =>
    cases o' with
    | package name' =>
      simp only [Origin.text] at h
      split at h <;> split at h <;> simp_all
    | lifted x' =>
      simp only [Origin.separator?] at hseparator
      split at hseparator <;> simp at hseparator
    | member x' => exact absurd h (hpackage ho ho')
  | lifted x =>
    cases o' with
    | package name' =>
      simp only [Origin.separator?] at hseparator
      split at hseparator <;> simp at hseparator
    | lifted x' => rw [hfull x rfl x' ho' ((String.append_left_inj _).mp h)]
    | member x' => simp [Origin.separator?] at hseparator
  | member x =>
    cases o' with
    | package name' => exact absurd h.symm (hpackage ho' ho)
    | lifted x' => simp [Origin.separator?] at hseparator
    | member x' =>
      rw [hnames.outer_inj hfirst ho ho' (hfull x rfl x' ho') ((String.append_left_inj ".").mp h)]

/-- Different declarations have different qualified names: the name tells what
is around a declaration, and around that. -/
theorem DistinctNames.full_inj (hnames : m.DistinctNames) (hfirst : m.ContainersFirst)
    (hd : d ∈ m.typeDecls) (he : e ∈ m.typeDecls) (h : m.spelling d .full = m.spelling e .full) :
    d = e := by
  induction hindex : d.index using Nat.strongRecOn generalizing d e with
  | ind n ih =>
    obtain ⟨htext, hname⟩ := hnames.split hfirst hd he h
    have horigin : m.origin d = m.origin e := by
      refine hnames.text_inj hfirst (hnames.declared_origin hfirst hd)
        (hnames.declared_origin hfirst he) (fun x hx x' hx' hfull => ?_) htext
      rw [outer?_origin] at hx
      obtain ⟨hmem, hlt⟩ := hfirst.enclosingType?_mem hx
      exact ih x.index (hindex ▸ hlt) hmem hx' hfull rfl
    have houter : m.enclosingType? d = m.enclosingType? e := by
      rw [← outer?_origin, horigin, outer?_origin]
    refine hnames.siblings d hd e he houter (fun hnone => ?_) hname
    have hpackage : m.origin d = .package (m.decl d).package := by
      unfold origin
      rw [hnone]
    exact package_of_origin (horigin ▸ hpackage)

/-- Classes, interfaces and objects have different qualified names and different
companions' names, and no companion is named as a declaration, unless an
interface has a member interface with the name that companions end in.  A
declaration inside a method counts as one of its package. -/
theorem spelling_injective (hfirst : m.ContainersFirst) (hnames : m.DistinctNames)
    (hd : d ∈ m.typeDecls) (he : e ∈ m.typeDecls) :
    (m.spelling d .full = m.spelling e .full → d = e) ∧
      (m.spelling d ⟨true, true⟩ = m.spelling e ⟨true, true⟩ → d = e) ∧
      (m.spelling d ⟨true, true⟩ = m.spelling e .full →
        m.enclosingType? e = some d ∧ (m.decl e).isInterface = true ∧ (m.decl e).name = "impl") := by
  have hfull := hnames.full_inj hfirst hd he
  refine ⟨hfull, fun h => hfull ?_, fun h => ?_⟩
  · rw [spelling_companion, spelling_companion] at h
    exact (String.append_left_inj _).mp h
  · obtain ⟨htext, hname⟩ := hnames.split_companion hfirst he h
    have hinterface : (m.decl e).isInterface = true := by
      by_contra hclass
      exact hnames.companion_ne_class hfirst he (by simpa using hclass) h
    have horigin : Origin.lifted d = m.origin e :=
      hnames.text_inj hfirst hd (hnames.declared_origin hfirst he)
        (fun x hx x' hx' hxx' => by cases hx; exact hnames.full_inj hfirst hd hx' hxx') htext.symm
    have houter := outer?_origin m e
    rw [← horigin] at houter
    exact ⟨houter.symm, hinterface, hname⟩

/-- An interface `Tree` with a class `Node` and an interface `View` in it, which
has a class `Node` of its own, and a method with a class `Walker` in it. -/
def treeNames : Model where
  decls := #[
    .bare "Tree" .iface "demo" none,
    .bare "Node" .cls "demo" (some ⟨22⟩),
    .bare "View" .iface "demo" (some ⟨22⟩),
    .bare "Node" .cls "demo" (some ⟨24⟩),
    .bare "walk" .method "demo" none,
    .bare "Walker" .cls "demo" (some ⟨26⟩)]
  params := #[]

/-- The two classes of one name are `demo.Tree$impl.Node` and
`demo.Tree$View$impl.Node`, and the companion of `Tree` is not `View`. -/
theorem treeNames_distinct :
    treeNames.ContainersFirst ∧ treeNames.DistinctNames ∧
      (∀ d ∈ [⟨22⟩, ⟨23⟩, ⟨24⟩, ⟨25⟩], d ∈ treeNames.typeDecls) ∧
      treeNames.spelling ⟨23⟩ .full ≠ treeNames.spelling ⟨25⟩ .full ∧
      treeNames.spelling ⟨22⟩ ⟨true, true⟩ ≠ treeNames.spelling ⟨24⟩ ⟨true, true⟩ ∧
      treeNames.spelling ⟨22⟩ ⟨true, true⟩ ≠ treeNames.spelling ⟨24⟩ .full := by
  have hfirst : treeNames.ContainersFirst := by decide +kernel
  have hnames : treeNames.DistinctNames := by decide +kernel
  have hmem : ∀ d ∈ [⟨22⟩, ⟨23⟩, ⟨24⟩, ⟨25⟩], d ∈ treeNames.typeDecls := by decide +kernel
  have hnodes := spelling_injective hfirst hnames (hmem ⟨23⟩ (by simp)) (hmem ⟨25⟩ (by simp))
  have hview := spelling_injective hfirst hnames (hmem ⟨22⟩ (by simp)) (hmem ⟨24⟩ (by simp))
  refine ⟨hfirst, hnames, hmem, fun h => ?_, fun h => ?_, fun h => ?_⟩
  · exact absurd (hnodes.1 h) (by decide)
  · exact absurd (hview.2.1 h) (by decide)
  · exact absurd (hview.2.2 h).2.2 (by decide)

/-- Two methods with a class `Local` each; an interface `Tree` with an interface
`impl` and a class `Node` in it; and a class `Node` in a package `demo.Tree$impl`. -/
def collidingNames : Model where
  decls := #[
    .bare "first" .method "demo" none,
    .bare "Local" .cls "demo" (some ⟨22⟩),
    .bare "second" .method "demo" none,
    .bare "Local" .cls "demo" (some ⟨24⟩),
    .bare "Tree" .iface "demo" none,
    .bare "impl" .iface "demo" (some ⟨26⟩),
    .bare "Node" .cls "demo" (some ⟨26⟩),
    .bare "Node" .cls "demo.Tree$impl" none]
  params := #[]

/-- Distinct names of the declarations in one container, or at the top level of
one package, are not enough: classes in different methods can have one name, a
package can be named as a companion, and so can a member interface. -/
theorem collidingNames_collide :
    collidingNames.ContainersFirst ∧
      (∀ d ∈ collidingNames.declIds, ∀ e ∈ collidingNames.declIds,
        (collidingNames.decl d).container = (collidingNames.decl e).container →
        ((collidingNames.decl d).container = none →
          (collidingNames.decl d).package = (collidingNames.decl e).package) →
        (collidingNames.decl d).name = (collidingNames.decl e).name → d = e) ∧
      (∀ d ∈ collidingNames.declIds,
        (collidingNames.decl d).name ≠ "" ∧ Undivided (collidingNames.decl d).name) ∧
      (∀ d ∈ collidingNames.declIds, ∀ e ∈ collidingNames.typeDecls,
        (collidingNames.decl d).package ≠ collidingNames.qualifiedName e) ∧
      collidingNames.spelling ⟨23⟩ .full = collidingNames.spelling ⟨25⟩ .full ∧
      collidingNames.spelling ⟨28⟩ .full = collidingNames.spelling ⟨29⟩ .full ∧
      collidingNames.spelling ⟨26⟩ ⟨true, true⟩ = collidingNames.spelling ⟨27⟩ .full := by
  decide +kernel

end Model

end TreeLowering
