import TreeLowering.Proofs.TypeForm
set_option autoImplicit false

/-!
# Proofs: the grammar of lowered types

Every lowered type is a type of the target: a primitive type stands alone, a
wildcard is a type argument, only a class or a member has arguments, and there
are no arrays.  The places at which a type may stand are given first; that
nothing is misplaced is a property that every formation of a type keeps.
-/

namespace TreeLowering

namespace Target

/-- Where a type stands in the type directly around it. -/
inductive Place where
  /-- It is the whole type. -/
  | whole
  /-- A member is selected from it. -/
  | outer
  /-- It is given type arguments. -/
  | base
  | argument
  /-- It bounds a wildcard. -/
  | bound
  | element
  deriving DecidableEq, Repr, Inhabited

namespace Ty

/-- The types directly inside a type, each with its place. -/
def inside : Ty → List (Place × Ty)
  | member outer _ => [(.outer, outer)]
  | apply base args => (.base, base) :: args.map fun a => (.argument, a)
  | subtypeOf bound | supertypeOf bound => [(.bound, bound)]
  | array element => [(.element, element)]
  | primitive _ | cls _ | anyType | var _ | erroneous => []

/-- A type that stands at `start` contains `u` at `place`, at any depth. -/
inductive Occurs : Place → Ty → Place → Ty → Prop
  | self (start : Place) (t : Ty) : Occurs start t start t
  | inside {start inner place : Place} {t v u : Ty} (hv : (inner, v) ∈ t.inside)
      (hu : Occurs inner v place u) : Occurs start t place u

/-- The grammar admits the type at the place. -/
def FitsAt (place : Place) : Ty → Prop
  | primitive p => place = .whole ∧ p ≠ .void
  | anyType | subtypeOf _ | supertypeOf _ => place = .argument
  | apply base args => base.isClass = true ∧ args ≠ []
  | array _ => False
  | cls _ | member _ _ | var _ | erroneous => True

/-- Where a type stands at `start`, all types in it fit their places. -/
def PlacedAt (start : Place) (t : Ty) : Prop := ∀ place u, Occurs start t place u → u.FitsAt place

/-- All types in a whole type fit their places. -/
def WellPlaced (t : Ty) : Prop := t.PlacedAt .whole

theorem placedAt_iff {start : Place} {t : Ty} :
    t.PlacedAt start ↔ t.FitsAt start ∧ ∀ e ∈ t.inside, e.2.PlacedAt e.1 := by
  constructor
  · intro h
    exact ⟨h start t (.self start t), fun e he place u hu => h place u (.inside he hu)⟩
  · rintro ⟨hself, hinside⟩ place u hu
    cases hu with
    | self => exact hself
    | inside hv hu => exact hinside _ hv place u hu

theorem placedAt_of_inside_eq_nil {start : Place} {t : Ty} (h : t.inside = [])
    (hfits : t.FitsAt start) : t.PlacedAt start :=
  placedAt_iff.mpr ⟨hfits, by simp [h]⟩

theorem place_ne_whole {t u : Ty} {place : Place} (h : (place, u) ∈ t.inside) :
    place ≠ .whole := by
  rintro rfl
  cases t <;> simp [Ty.inside] at h

/-- A type occurs as the type itself, or inside another one. -/
theorem Occurs.eq_or_inner {start place : Place} {t u : Ty} (h : Occurs start t place u) :
    place = start ∧ u = t ∨ place ≠ .whole := by
  induction h with
  | self => exact .inl ⟨rfl, rfl⟩
  | inside hv _ ih =>
    rcases ih with ⟨rfl, _⟩ | hinner
    · exact .inr (place_ne_whole hv)
    · exact .inr hinner

/-- Where everything fits its place, a primitive type is the whole type. -/
theorem WellPlaced.eq_of_primitive {t : Ty} (h : t.WellPlaced) {place : Place} {p : Primitive}
    (hp : Occurs .whole t place (.primitive p)) : t = .primitive p := by
  obtain ⟨rfl, _⟩ := h place _ hp
  rcases hp.eq_or_inner with ⟨_, hself⟩ | hinner
  · exact hself.symm
  · contradiction

end Ty

end Target

namespace TypeLowering

open Target.Ty

/-! ## The grammar as a property of formations -/

/-- A type without a primitive type fits every place when what it is formed of
does. -/
theorem placedAt_formation (R : List Note → Prop) (hR : Excuse R) :
    Formation R (fun t => ∀ start, t.PlacedAt start) (PlacedAt .argument) where
  toExcuse := hR
  cls _ _ := placedAt_of_inside_eq_nil rfl trivial
  member outer _ houter _ :=
    placedAt_iff.mpr ⟨trivial, by simpa [Target.Ty.inside] using houter .outer⟩
  apply base args hclass hbase hne hargs start := by
    refine placedAt_iff.mpr ⟨⟨hclass, hne⟩, ?_⟩
    simpa [Target.Ty.inside] using ⟨hbase .base, hargs⟩
  argument _ ht := ht .argument
  anyType := placedAt_of_inside_eq_nil rfl rfl
  subtypeOf _ ht := placedAt_iff.mpr ⟨rfl, by simpa [Target.Ty.inside] using ht .bound⟩
  supertypeOf _ ht := placedAt_iff.mpr ⟨rfl, by simpa [Target.Ty.inside] using ht .bound⟩
  missing _ _ := .inl (placedAt_of_inside_eq_nil rfl trivial)

/-- Type variables and placeholders fit every place. -/
theorem writes_placedAt (m : Model) (t : Ty) :
    Writes (fun jt => ∀ start, jt.PlacedAt start) m t :=
  have hplaceholder : ∀ start, Target.Ty.erroneous.PlacedAt start := fun _ =>
    placedAt_of_inside_eq_nil rfl trivial
  ⟨fun _ => hplaceholder,
    fun _ _ _ => ⟨fun _ _ _ => placedAt_of_inside_eq_nil rfl trivial, .inr hplaceholder⟩⟩

/-- There is one pair for each parameter, in order. -/
theorem map_fst_pairArguments :
    ∀ (ps : List ParamId) (as : List Ty), (pairArguments ps as).map Prod.fst = ps
  | [], _ => by simp [pairArguments]
  | p :: ps, [] => by simp [pairArguments, map_fst_pairArguments ps []]
  | p :: ps, a :: as => by simp [pairArguments, map_fst_pairArguments ps as]

theorem length_writtenArguments (callable : Bool) (pairs : List (ParamId × Option Ty)) :
    (writtenArguments callable pairs).length =
      if callable then min 1 pairs.length else pairs.length := by
  unfold writtenArguments
  split
  · exact List.length_take
  · rfl

/-- Written arguments are one for each parameter, and one in all for a function
value. -/
theorem length_typeArguments {m : Model} {lower : Ty → TypeLowering Target.Ty} {ctx : Context}
    {callable : Bool} {owner : Ty} {pairs : List (ParamId × Option Ty)} {ts : List Target.Ty}
    (h : (typeArguments m lower ctx callable owner pairs).answer? = some (some ts)) :
    ts.length = if callable then min 1 pairs.length else pairs.length := by
  have hany : Formation (fun _ => False) (fun _ => True) (fun _ => True) :=
    ⟨.never, by simp, by simp, by simp, by simp, trivial, by simp, by simp, by simp⟩
  rw [← length_writtenArguments]
  have hlengths : Ensures (fun _ => False)
      (fun o => ∀ ts ∈ o, ts.length = (writtenArguments callable pairs).length ∧ ∀ a ∈ ts, True)
      (arguments m lower ctx owner (writtenArguments callable pairs)) :=
    hany.arguments (fun _ _ _ _ => .inl trivial) owner _
  exact (hlengths.answer h ts rfl).1

end TypeLowering

namespace Env

open TypeLowering

/-- In every lowered type everything fits its place: a primitive type is the
whole type, is not `void` and is written only where primitive types are allowed;
a wildcard is a type argument; a generic type is a class or member with at least
one argument; and there is no array.  The arguments of a type that is not
written raw are one for each parameter they are paired with, or one in all for a
function value's type that has any; a class or interface pairs all its type
parameters, in order. -/
theorem lowerType?_wellPlaced (env : Env) (ctx : Context) :
    (∀ t jt, (env.lowerType? t ctx).answer? = some (some jt) →
      jt.WellPlaced ∧ ∀ place p, jt.Occurs .whole place (.primitive p) →
        jt = .primitive p ∧ ctx.allowsPrimitives = true) ∧
    (∀ depth callable owner pairs ts,
      (typeArguments env.model (argumentType env depth) ctx callable owner pairs).answer? =
        some (some ts) →
      ts.length = if callable then min 1 pairs.length else pairs.length) ∧
    ∀ d as, (segmentArguments env.model d as).map Prod.fst = (env.model.decl d).typeParams := by
  refine ⟨fun t jt hjt => ?_, fun _ _ _ _ _ => length_typeArguments,
    fun d as => map_fst_pairArguments _ as⟩
  have hensures : Ensures (fun _ => False)
      (fun o => ∀ jt ∈ o, OrPrimitive (fun jt => ∀ start, jt.PlacedAt start) ctx jt)
      (env.lowerType? t ctx) :=
    lowerType?_ensures (placedAt_formation _ .never) fun v _ => writes_placedAt env.model v
  rcases hensures.answer hjt jt rfl with hplaced | ⟨hallowed, hprimitive⟩
  · have hwhole : jt.WellPlaced := hplaced .whole
    refine ⟨hwhole, fun place p hp => ?_⟩
    obtain rfl := hwhole.eq_of_primitive hp
    exact absurd (Target.Ty.placedAt_iff.mp (hplaced .argument)).1.1 (by decide)
  · cases jt with
    | primitive q =>
      have hplaced : (Target.Ty.primitive q).WellPlaced :=
        Target.Ty.placedAt_of_inside_eq_nil rfl
          ⟨rfl, by simpa [Target.Ty.isPrimitive] using hprimitive⟩
      exact ⟨hplaced, fun place p hp => ⟨hplaced.eq_of_primitive hp, hallowed⟩⟩
    | cls _ | member _ _ | apply _ _ | anyType | subtypeOf _ | supertypeOf _ | var _ | array _
    | erroneous => contradiction

/-- An entry of a string and a number is written with one wildcard for each of
its two arguments. -/
theorem entry_wellPlaced :
    ∃ jt ts, ((Env.of .new .standard).lowerType?
          (.of Language.entry [Language.stringTy, Language.integerTy]) .plain).answer? =
        some (some jt) ∧ jt.WellPlaced ∧
      (typeArguments .new (argumentType (Env.of .new .standard) 2) .plain false
          (.of Language.entry [Language.stringTy, Language.integerTy])
          (segmentArguments .new Language.entry [Language.stringTy, Language.integerTy])).answer? =
        some (some ts) ∧ ts.length = 2 := by
  have hplaced := lowerType?_wellPlaced (Env.of .new .standard) .plain
  have hentry : ((Env.of .new .standard).lowerType?
      (.of Language.entry [Language.stringTy, Language.integerTy]) .plain).answer? =
    some (some (.apply (.cls "vela.language.Entry")
      [.subtypeOf (.cls "vela.language.String"), .subtypeOf (.cls "vela.language.Integer")])) := rfl
  have harguments : (typeArguments .new (argumentType (Env.of .new .standard) 2) .plain false
      (.of Language.entry [Language.stringTy, Language.integerTy])
      (segmentArguments .new Language.entry [Language.stringTy, Language.integerTy])).answer? =
    some (some
      [.subtypeOf (.cls "vela.language.String"), .subtypeOf (.cls "vela.language.Integer")]) := rfl
  exact ⟨_, _, hentry, (hplaced.1 _ _ hentry).1, harguments, hplaced.2.1 2 _ _ _ _ harguments⟩

end Env

end TreeLowering
