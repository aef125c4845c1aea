import ResourceHost.Json.Reader.Basic
import ResourceHost.Text.Hex
import ResourceHost.Text.Utf8

/-!
# Reading JSON texts

A text stands between quotes, with escapes in it.  A character outside the
basic plane is escaped as a surrogate pair; half a pair is refused.
-/

namespace ResourceHost.Json.Reader

/-- Whether a byte may not stand in a text unescaped. -/
def isControl (b : UInt8) : Bool := b < 0x20

/-- The value of a hexadecimal digit. -/
def hexValue? (b : UInt8) : Option Nat := Hex.value? (Char.ofNat b.toNat)

/-- The value of the four digits at the front. -/
def fourDigits : List UInt8 → Except Problem Nat
  | a :: b :: c :: d :: _ =>
    match hexValue? a, hexValue? b, hexValue? c, hexValue? d with
    | some a, some b, some c, some d => .ok (((a * 16 + b) * 16 + c) * 16 + d)
    | _, _, _, _ => .error .malformed
  | _ => .error .ended

/-- The byte that a one-letter escape stands for. -/
def shortEscape? (b : UInt8) : Option UInt8 :=
  if b == byte '"' then some (byte '"')
  else if b == byte '\\' then some (byte '\\')
  else if b == byte '/' then some (byte '/')
  else if b == byte 'b' then some 0x08
  else if b == byte 'f' then some 0x0C
  else if b == byte 'n' then some 0x0A
  else if b == byte 'r' then some 0x0D
  else if b == byte 't' then some 0x09
  else none

/-- Reads the second half of a surrogate pair whose first half is `high`. -/
def pairedEscape (high : Nat) : List UInt8 → Except Problem (List UInt8)
  | [] => .error .ended
  | b :: rest =>
    if b == byte '\\' then
      match rest with
      | [] => .error .ended
      | u :: digits =>
        if u == byte 'u' then do
          let low ← fourDigits digits
          if 0xDC00 ≤ low ∧ low ≤ 0xDFFF then
            .ok (String.utf8EncodeChar
              (Char.ofNat (0x10000 + (high - 0xD800) * 0x400 + (low - 0xDC00))))
          else .error .malformed
        else .error .malformed
    else .error .malformed

/-- Reads an escape behind its backslash: the bytes it stands for, and how
many bytes it is long. -/
def escape : List UInt8 → Except Problem (List UInt8 × Nat)
  | [] => .error .ended
  | b :: rest =>
    if b == byte 'u' then do
      let code ← fourDigits rest
      if 0xDC00 ≤ code ∧ code ≤ 0xDFFF then .error .malformed
      else if 0xD800 ≤ code ∧ code ≤ 0xDBFF then do
        let bytes ← pairedEscape code (rest.drop 4)
        .ok (bytes, 11)
      else .ok (String.utf8EncodeChar (Char.ofNat code), 5)
    else
      match shortEscape? b with
      | some c => .ok ([c], 1)
      | none => .error .malformed

/-- The bytes of a text behind its opening quote, those read so far in `done`,
last first. -/
def textBytes (done : List UInt8) (s : List UInt8) :
    Except Problem (List UInt8 × List UInt8) :=
  match s with
  | [] => .error .ended
  | b :: rest =>
    if b == byte '"' then .ok (done.reverse, rest)
    else if b == byte '\\' then
      match escape rest with
      | .error p => .error p
      | .ok (bytes, n) => textBytes (bytes.reverse ++ done) (rest.drop n)
    else if isControl b then .error .malformed
    else textBytes (b :: done) rest
termination_by s.length
decreasing_by all_goals simp only [List.length_cons, List.length_drop]; omega

/-- A text behind its opening quote. -/
def textTail : Reader String := fun _ s =>
  match textBytes [] s with
  | .error p => .error p
  | .ok (bytes, rest) =>
    match Text.ofBytes? bytes with
    | some t => .ok (t, rest)
    | none => .error .malformed

end ResourceHost.Json.Reader
