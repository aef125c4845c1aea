import ResourceHost.Id
import ResourceHost.Decimal.Integer
import ResourceHost.Json.Layout

/-!
# Reading handles

A handle is read from the JSON object that it is written as.
-/

namespace ResourceHost.Handle

/-- A handle as far as it is known. -/
structure Draft where
  type : Option Nat := none
  name : Option Nat := none

/-- The fields of a handle, both of them required. -/
def layout : Json.Layout Draft := [
  { key := "type_id", isSet := fun d => d.type.isSome, required := true
    fill := fun d => do
      return { d with
        type := some (← Json.Reader.natural Decimal.maxWord64) } },
  { key := "name", isSet := fun d => d.name.isSome, required := true
    fill := fun d => do
      return { d with
        name := some (← Json.Reader.natural Decimal.maxWord64) } }]

/-- Reads a handle. -/
def reader : Json.Reader Handle := do
  let d ← layout.read {}
  pure ⟨⟨UInt64.ofNat (d.type.getD 0)⟩, ⟨UInt64.ofNat (d.name.getD 0)⟩⟩

/-- The handle that a JSON text writes. -/
def ofBytes (bytes : List UInt8) : Except Json.Problem Handle :=
  Json.Reader.run reader bytes

end ResourceHost.Handle
