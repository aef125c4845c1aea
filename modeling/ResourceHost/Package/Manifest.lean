import ResourceHost.Failure
import ResourceHost.Json.Value

/-!
# Package manifests

A package lists other resources by type.  It is written as an object from
type names to lists of resource names.  Its groups come in the order of the
type names, whatever the order of the members; of two members with one type
name the later counts.
-/

namespace ResourceHost.Package

/-- The resources of one type in a package. -/
structure Group where
  type : TypeId
  names : List NameId
  deriving DecidableEq

/-- What a package lists. -/
structure Manifest where
  groups : List Group
  deriving DecidableEq

namespace Manifest

/-- The number of resources listed. -/
def size (m : Manifest) : Nat :=
  m.groups.foldr (fun g n => g.names.length + n) 0

/-- Whether nothing is listed. -/
def isEmpty (m : Manifest) : Bool := m.size == 0

/-- The handles listed, in the order in which they are loaded. -/
def handles (m : Manifest) : List Handle :=
  m.groups.flatMap fun g => g.names.map fun n => ⟨g.type, n⟩

/-- The manifest of some members. -/
def ofMembers (ms : List (String × List String)) : Manifest :=
  ⟨(Sorted.ofMembers ms).map fun m => ⟨Id.ofName m.1, m.2.map Id.ofName⟩⟩

/-- Reads a manifest. -/
def reader : Json.Reader Manifest := do
  return ofMembers (← Json.Reader.object (Json.Reader.array Json.Reader.text))

/-- The manifest that a JSON text writes. -/
def ofBytes (bytes : List UInt8) : Except Failure Manifest :=
  match Json.Reader.run reader bytes with
  | .ok m => .ok m
  | .error p => .error (.during .parsePackage (.json p))

end Manifest

end ResourceHost.Package
