/-!
# Shapes of representations

What a reader may expect a representation to be.
-/

namespace ResourceHost

/-- The shapes that a representation can be asked for. -/
inductive Shape where
  | text
  | bytes
  | json
  | unit
  | package
  /-- A 32-bit number, which no resource is kept as. -/
  | word
  deriving DecidableEq, Repr

/-- The name of a shape in messages. -/
def Shape.name : Shape → String
  | .text => "alloc::string::String"
  | .bytes => "bytes::bytes::Bytes"
  | .json => "serde_json::value::Value"
  | .unit => "engine_resource::unit::UnitDescription"
  | .package => "engine_resource::package::PackageManifest"
  | .word => "u32"

end ResourceHost
