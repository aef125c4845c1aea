import ResourceHost.Package.Manifest
import ResourceHost.Unit.Description

/-!
# Resource kinds

A kind says how the bytes of a resource become its content, when it is loaded
and when new bytes replace the old.  Both depend on their arguments alone.
What one kind does may change from time to time: it is then the same kind
still, by its identity.
-/

namespace ResourceHost

/-- What a loaded resource holds. -/
inductive Content where
  | text (s : String)
  | bytes (data : List UInt8)
  | json (v : Json.Value)
  | unit (d : Unit.Description)
  | package (m : Package.Manifest)

namespace Content

/-- The shape of a content. -/
def shape : Content → Shape
  | .text _ => .text
  | .bytes _ => .bytes
  | .json _ => .json
  | .unit _ => .unit
  | .package _ => .package

def asUnit? : Content → Option Unit.Description
  | .unit d => some d
  | _ => none

def asPackage? : Content → Option Package.Manifest
  | .package m => some m
  | _ => none

end Content

/-- How the bytes of one type of resource are understood. -/
structure Kind where
  /-- Tells kinds apart, whatever they do. -/
  identity : Nat
  /-- The content of new bytes. -/
  load : Handle → List UInt8 → Except Failure Content
  /-- The content of bytes that replace an old content. -/
  reload : Handle → Content → List UInt8 → Except Failure Content :=
    fun h _ bytes => load h bytes

namespace Kind

/-- Packages: manifests. -/
def package : Kind where
  identity := 0
  load _ bytes := (Package.Manifest.ofBytes bytes).map .package

/-- Units: valid descriptions. -/
def unit : Kind where
  identity := 1
  load _ bytes := (Unit.Description.ofBytes bytes).map .unit

/-- Configuration documents: any JSON value. -/
def config : Kind where
  identity := 2
  load h bytes :=
    match Json.Value.ofBytes bytes with
    | .ok v => .ok (.json v)
    | .error p => .error (.during (.parseConfig h) (.json p))

/-- Kinds that other subsystems understand: the bytes as they are. -/
def raw (identity : Nat) : Kind where
  identity
  load _ bytes := .ok (.bytes bytes)

/-! ### The types that a host registers -/

/-- The type of packages. -/
def packageType : TypeId := Id.ofName "package"

/-- The type of units. -/
def unitType : TypeId := Id.ofName "unit"

/-- The types that a host knows, in the order of their registration. -/
def builtin : List (TypeId × Kind) :=
  [(packageType, package), (unitType, unit), (Id.ofName "config", config),
    (Id.ofName "script", raw 3), (Id.ofName "shader", raw 4),
    (Id.ofName "material", raw 5), (Id.ofName "texture", raw 6),
    (Id.ofName "level", raw 7)]

end Kind

end ResourceHost
