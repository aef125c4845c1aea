import ResourceHost.Failure
import ResourceHost.Param

/-!
# Transforms

Where an entity is and how large.  A transform is read from a parameter
record: `position` is a sequence of three numbers, `scale` a number; either
may be missing.
-/

namespace ResourceHost

/-- A vector of three 32-bit floats. -/
structure Vector3 where
  x : Float32
  y : Float32
  z : Float32

namespace Vector3

def zero : Vector3 := ⟨0, 0, 0⟩

/-- A number as a 32-bit float. -/
def component? (v : Param.Value) : Option Float32 :=
  v.asFloat?.map Float.toFloat32

/-- Reads a sequence of exactly three numbers. -/
def ofParam? (v : Param.Value) : Option Vector3 :=
  match v.asSequence? with
  | some [x, y, z] => do
    let x ← component? x
    let y ← component? y
    let z ← component? z
    pure ⟨x, y, z⟩
  | _ => none

end Vector3

/-- The placement of an entity. -/
structure Transform where
  position : Vector3 := Vector3.zero
  scale : Float32 := 1

namespace Transform

/-- The position that a record gives. -/
def readPosition (r : Param.Record) : Except Failure Vector3 :=
  match Param.Record.get? r "position" with
  | none => .ok Vector3.zero
  | some v =>
    match Vector3.ofParam? v with
    | some p => .ok p
    | none => .error .badPosition

/-- The scale that a record gives. -/
def readScale (r : Param.Record) : Except Failure Float32 :=
  match Param.Record.get? r "scale" with
  | none => .ok 1
  | some v =>
    match Vector3.component? v with
    | some s => .ok s
    | none => .error .badScale

/-- The transform that a record describes. -/
def ofRecord (r : Param.Record) : Except Failure Transform := do
  let position ← readPosition r
  let scale ← readScale r
  pure ⟨position, scale⟩

/-- The transforms of several records, or the failure of the first bad one. -/
def ofRecords : List Param.Record → Except Failure (List Transform)
  | [] => .ok []
  | r :: rs => do
    let t ← ofRecord r
    let ts ← ofRecords rs
    pure (t :: ts)

end Transform

end ResourceHost
