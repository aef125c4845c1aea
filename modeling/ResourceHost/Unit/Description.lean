import ResourceHost.Failure
import ResourceHost.Json.Layout
import ResourceHost.Param

/-!
# Unit descriptions

A unit is a template of entities.  Its description says how many entities it
has and, group by group, which of them get a component of one type and with
which parameters.  A description is valid when it has an entity and every
group pairs each of its indices, all of entities of the unit, with a record.
-/

namespace ResourceHost.Unit

/-- Components of one type for some entities of a unit. -/
structure Group where
  component : ComponentId
  /-- Indices of entities within the unit. -/
  entities : List Nat
  /-- The parameters of each of them, in the same order. -/
  records : List Param.Record

/-- A template of entities; entity 0 is the root. -/
structure Description where
  entityCount : Nat
  groups : List Group

namespace Description

/-! ### Validity -/

/-- What is wrong with the group at a position of a unit of `count` entities. -/
def groupProblem? (count position : Nat) (g : Group) : Option UnitProblem :=
  if g.entities.length ≠ g.records.length then
    some (.unequal position g.entities.length g.records.length)
  else
    (g.entities.find? fun e => decide (count ≤ e)).map fun e =>
      .outOfRange position e count

/-- The first thing that is wrong with groups, the first of which has a
position. -/
def groupsProblem? (count : Nat) :
    (position : Nat) → List Group → Option UnitProblem
  | _, [] => none
  | position, g :: gs =>
    match groupProblem? count position g with
    | some p => some p
    | none => groupsProblem? count (position + 1) gs

/-- The first thing that is wrong with a description. -/
def problem? (d : Description) : Option UnitProblem :=
  if d.entityCount = 0 then some .noEntities
  else groupsProblem? d.entityCount 0 d.groups

/-- Refuses a description with anything wrong. -/
def validate (d : Description) : Except Failure Unit :=
  match d.problem? with
  | none => .ok ()
  | some p => .error (.malformedUnit p)

/-- A group fits a unit of `count` entities. -/
def GroupFits (count : Nat) (g : Group) : Prop :=
  g.entities.length = g.records.length ∧ ∀ e ∈ g.entities, e < count

/-- A description that can be spawned. -/
structure Valid (d : Description) : Prop where
  hasRoot : d.entityCount ≠ 0
  groupsFit : ∀ g ∈ d.groups, GroupFits d.entityCount g

theorem groupProblem?_eq_none_iff (count position : Nat) (g : Group) :
    groupProblem? count position g = none ↔ GroupFits count g := by
  unfold groupProblem? GroupFits
  by_cases h : g.entities.length = g.records.length
  · simp [h]
  · simp [h]

theorem groupsProblem?_eq_none_iff (count position : Nat) (gs : List Group) :
    groupsProblem? count position gs = none ↔ ∀ g ∈ gs, GroupFits count g := by
  induction gs generalizing position with
  | nil => simp [groupsProblem?]
  | cons g gs ih =>
    rw [groupsProblem?]
    have hg := groupProblem?_eq_none_iff count position g
    cases h : groupProblem? count position g with
    | none => simp [ih, hg.1 h]
    | some p => simp [← hg, h]

theorem problem?_eq_none_iff (d : Description) :
    d.problem? = none ↔ d.Valid := by
  unfold problem?
  by_cases h : d.entityCount = 0
  · simp only [h, if_true]
    exact ⟨fun hp => by simp at hp, fun hv => absurd h hv.hasRoot⟩
  · simp only [h, if_false, groupsProblem?_eq_none_iff]
    exact ⟨fun hg => ⟨h, hg⟩, fun hv => hv.groupsFit⟩

/-! ### Reading -/

/-- A group as far as it is known. -/
structure GroupDraft where
  component : Option String := none
  entities : Option (List Nat) := none
  records : Option (List Param.Record) := none

/-- The fields of a group, all of them required. -/
def groupLayout : Json.Layout GroupDraft := [
  { key := "component", isSet := fun d => d.component.isSome, required := true
    fill := fun d => do
      return { d with component := some (← Json.Reader.text) } },
  { key := "entities", isSet := fun d => d.entities.isSome, required := true
    fill := fun d => do
      return { d with
        entities := some
          (← Json.Reader.array (Json.Reader.natural Decimal.maxWord32)) } },
  { key := "records", isSet := fun d => d.records.isSome, required := true
    fill := fun d => do
      return { d with
        records := some (← Json.Reader.array Param.Record.reader) } }]

/-- Reads a group. -/
def groupReader : Json.Reader Group := do
  let d ← groupLayout.read {}
  pure ⟨Id.ofName (d.component.getD ""), d.entities.getD [], d.records.getD []⟩

/-- A description as far as it is known. -/
structure Draft where
  entityCount : Option Nat := none
  groups : Option (List Group) := none

/-- The fields of a description; groups may be left out. -/
def layout : Json.Layout Draft := [
  { key := "entity_count", isSet := fun d => d.entityCount.isSome
    required := true
    fill := fun d => do
      return { d with
        entityCount := some (← Json.Reader.natural Decimal.maxWord32) } },
  { key := "groups", isSet := fun d => d.groups.isSome, required := false
    fill := fun d => do
      return { d with groups := some (← Json.Reader.array groupReader) } }]

/-- Reads a description, valid or not. -/
def reader : Json.Reader Description := do
  let d ← layout.read {}
  pure ⟨d.entityCount.getD 0, d.groups.getD []⟩

/-- The valid description that a JSON text writes. -/
def ofBytes (bytes : List UInt8) : Except Failure Description :=
  match Json.Reader.run reader bytes with
  | .error p => .error (.during .parseUnit (.json p))
  | .ok d =>
    match d.validate with
    | .ok () => .ok d
    | .error f => .error f

/-- What comes out of the loader can be spawned. -/
theorem valid_of_ofBytes {bytes : List UInt8} {d : Description}
    (h : ofBytes bytes = .ok d) : d.Valid := by
  unfold ofBytes at h
  cases hr : Json.Reader.run reader bytes with
  | error p => simp [hr] at h
  | ok d' =>
    simp only [hr] at h
    cases hv : d'.validate with
    | error f => simp [hv] at h
    | ok u =>
      obtain rfl : d' = d := by simpa [hv] using h
      rw [← problem?_eq_none_iff]
      unfold validate at hv
      split at hv
      · assumption
      · simp at hv

end Description

end ResourceHost.Unit
