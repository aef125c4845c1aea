import ResourceHost.Decimal.Integer
import ResourceHost.Json.Value

/-!
# Parameter records

A component gets its parameters as a record: loosely typed values under text
keys, sorted by key.  A value is read from any JSON value without `null` in
it.  Integers that fit 64 bits with a sign stay integers, all other numbers
are floats.
-/

namespace ResourceHost

namespace Param

/-- One value of a record. -/
inductive Value where
  | truth (b : Bool)
  | integer (n : Int64)
  | real (x : Float)
  | text (s : String)
  | sequence (items : List Value)
  | map (entries : List (String × Value))

/-- The values of one component, sorted by key. -/
abbrev Record := List (String × Value)

namespace Value

/-- Numbers of either kind, as a float. -/
def asFloat? : Value → Option Float
  | .real x => some x
  | .integer n => some n.toFloat
  | _ => none

def asTruth? : Value → Option Bool
  | .truth b => some b
  | _ => none

def asText? : Value → Option String
  | .text s => some s
  | _ => none

def asSequence? : Value → Option (List Value)
  | .sequence vs => some vs
  | _ => none

def asMap? : Value → Option Record
  | .map r => some r
  | _ => none

/-! ### Reading -/

/-- The value of a JSON integer: a float where 64 bits with a sign are not
enough. -/
def ofInteger (n : Int) : Value :=
  if -9223372036854775808 ≤ n ∧ n ≤ 9223372036854775807 then
    .integer (Int64.ofInt n)
  else .real (UInt64.ofNat n.toNat).toFloat

mutual

/-- The parameter that a JSON value stands for: none if it holds a `null`. -/
def ofJson? : Json.Value → Option Value
  | .null => none
  | .truth b => some (.truth b)
  | .integer n => some (ofInteger n)
  | .real x => some (.real x)
  | .text s => some (.text s)
  | .array items => (ofItems? items).map .sequence
  | .object members =>
    (ofMembers? members).map fun ms => .map (Sorted.ofMembers ms)

def ofItems? : List Json.Value → Option (List Value)
  | [] => some []
  | v :: vs => do
    let w ← ofJson? v
    let ws ← ofItems? vs
    pure (w :: ws)

def ofMembers? : List (String × Json.Value) → Option (List (String × Value))
  | [] => some []
  | (k, v) :: ms => do
    let w ← ofJson? v
    let ws ← ofMembers? ms
    pure ((k, w) :: ws)

end

/-- Reads a value: the JSON value as a whole first, then what it stands for. -/
def reader : Json.Reader Value := do
  match ofJson? (← Json.Value.reader) with
  | some v => pure v
  | none => Json.Reader.fail .shape

/-- The value that a JSON text writes. -/
def ofBytes (bytes : List UInt8) : Except Json.Problem Value :=
  Json.Reader.run reader bytes

end Value

namespace Record

/-- What is filed under a key. -/
def get? (r : Record) (key : String) : Option Value := Sorted.get? key r

/-- Reads a record. -/
def reader : Json.Reader Record := do
  return Sorted.ofMembers (← Json.Reader.object Value.reader)

/-- The record that a JSON text writes. -/
def ofBytes (bytes : List UInt8) : Except Json.Problem Record :=
  Json.Reader.run reader bytes

end Record

end Param

end ResourceHost
