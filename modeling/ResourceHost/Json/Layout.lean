import ResourceHost.Json.Reader.Shaped
import ResourceHost.Json.Reader.Skip

/-!
# Records with fixed fields

A layout lists the fields of a record in their declared order and says how
each is read into a draft, the record as far as it is known.  A record is
written as an object, its fields in any order among members that nobody
wants, or as an array of the fields in their order.
-/

namespace ResourceHost.Json

/-- One field of a record, read into drafts of type `δ`. -/
structure Field (δ : Type) where
  /-- The key of the field. -/
  key : String
  /-- Whether the draft has the field. -/
  isSet : δ → Bool
  /-- Reads the field's value into the draft. -/
  fill : δ → Reader δ
  /-- Whether the field may not be left out. -/
  required : Bool

/-- The fields of a record in their declared order. -/
abbrev Layout (δ : Type) := List (Field δ)

namespace Layout

variable {δ : Type}

/-- The field with a key. -/
def find? (layout : Layout δ) (key : String) : Option (Field δ) :=
  List.find? (fun f => f.key == key) layout

/-- Whether every field that may not be left out is there. -/
def isComplete (layout : Layout δ) (d : δ) : Bool :=
  layout.all fun f => !f.required || f.isSet d

/-- Reads the members of an object into a draft.  A field that comes a second
time is refused before its value is looked at. -/
def fillMembers (layout : Layout δ) : Nat → Bool → δ → Reader δ
  | 0, _, _ => Reader.fail .ended
  | n + 1, first, d => do
    match ← Reader.anotherKey first with
    | none => if layout.isComplete d then pure d else Reader.fail .shape
    | some key =>
      match layout.find? key with
      | none =>
        Reader.colon
        Reader.skip
        fillMembers layout n false d
      | some f =>
        if f.isSet d then Reader.fail .shape
        else
          Reader.colon
          let d' ← f.fill d
          fillMembers layout n false d'

/-- Reads the items of an array into a draft, one for each field while there
are any. -/
def fillItems : Layout δ → Bool → δ → Reader δ
  | [], _, d => pure d
  | f :: rest, first, d => do
    if ← Reader.another first then
      let d' ← f.fill d
      fillItems rest false d'
    else if f.required then Reader.fail .shape
    else fillItems rest first d

/-- Reads a record into a draft. -/
def read (layout : Layout δ) (d : δ) : Reader δ := do
  match ← Reader.look with
  | none => Reader.fail .ended
  | some b =>
    if b == Reader.byte '\x7b' then
      let _ ← Reader.next
      let d' ← Reader.nested fun scope s =>
        fillMembers layout scope.turns true d scope s
      Reader.close '\x7d'
      pure d'
    else if b == Reader.byte '[' then
      let _ ← Reader.next
      let d' ← Reader.nested (fillItems layout true d)
      Reader.close ']'
      pure d'
    else Reader.mismatch

end Layout

end ResourceHost.Json
