import ResourceHost.Json.Reader.Basic

/-!
# Reading JSON numbers

An integer that fits 64 bits is read as it is.  Every other number becomes a
float: as many digits as fit 64 bits, scaled by a power of ten in steps of at
most `maxScale`.  A number beyond every float is refused.
-/

namespace ResourceHost.Json.Reader

/-- A number as it is written: an integer that fits 64 bits, or a float. -/
inductive Number where
  | natural (n : Nat)
  | negative (n : Nat)
  | real (x : Float)

/-- The value of a decimal digit. -/
def digit? (b : UInt8) : Option Nat :=
  if byte '0' ≤ b ∧ b ≤ byte '9' then some (b.toNat - 48) else none

def isDigit (b : UInt8) : Bool := (digit? b).isSome

/-- Takes the digits at the front. -/
def digits : Reader (List UInt8) :=
  fun _ s => .ok (s.takeWhile isDigit, s.dropWhile isDigit)

/-- The largest significand. -/
def maxSignificand : Nat := 18446744073709551615

/-- Appends digits to a significand while it fits 64 bits.  Gives it with the
number of digits that were left out. -/
def absorb : Nat → List UInt8 → Nat × Nat
  | m, [] => (m, 0)
  | m, b :: rest =>
    let m' := m * 10 + (b.toNat - 48)
    if m' ≤ maxSignificand then absorb m' rest else (m, rest.length + 1)

/-- The powers of ten that floats are scaled by. -/
def maxScale : Nat := 308

/-- Ten to a power, to the nearest float. -/
def pow10 (n : Nat) : Float := Float.ofScientific 1 false n

/-- Multiplies `x` by ten to the power `e`, in steps of at most `maxScale`.
A result beyond every float is none. -/
def scale (x : Float) (e : Int) : Option Float :=
  if e.natAbs ≤ maxScale then
    if 0 ≤ e then
      let y := x * pow10 e.natAbs
      if y.isInf then none else some y
    else some (x / pow10 e.natAbs)
  else if x == 0.0 then some x
  else if 0 ≤ e then none
  else scale (x / pow10 maxScale) (e + maxScale)
termination_by e.natAbs
decreasing_by simp only [maxScale] at *; omega

/-- The float with this sign, significand and decimal exponent. -/
def real (negative : Bool) (m : Nat) (e : Int) : Reader Float :=
  match scale (UInt64.ofNat m).toFloat e with
  | some x => pure (if negative then -x else x)
  | none => fail .malformed

/-- The largest exponent that is read. -/
def maxExponent : Nat := 2147483647

/-- The value of digits, unless it is beyond `maxExponent`. -/
def exponentValue? (ds : List UInt8) : Option Nat :=
  ds.foldl (fun e? b => e?.bind fun e =>
    let e' := e * 10 + (b.toNat - 48)
    if e' ≤ maxExponent then some e' else none) (some 0)

/-- The exponent of a number, behind its `e`. -/
def exponentTail (negative : Bool) (m : Nat) (e : Int) : Reader Float := do
  let down ← do
    match ← peek with
    | some b =>
      if b == byte '+' then let _ ← next; pure false
      else if b == byte '-' then let _ ← next; pure true
      else pure false
    | none => pure false
  let ds ← digits
  if ds.isEmpty then
    match ← peek with
    | none => fail .ended
    | some _ => fail .malformed
  else
    match exponentValue? ds with
    | some n => real negative m (if down then e - n else e + n)
    | none =>
      if m ≠ 0 ∧ !down then fail .malformed
      else pure (if negative then -0.0 else 0.0)

/-- Whether the next byte begins an exponent; takes it if so. -/
def exponentMark : Reader Bool := do
  match ← peek with
  | some b =>
    if b == byte 'e' || b == byte 'E' then let _ ← next; pure true
    else pure false
  | none => pure false

/-- Whether the next byte is a decimal point; takes it if so. -/
def pointMark : Reader Bool := do
  match ← peek with
  | some b => if b == byte '.' then let _ ← next; pure true else pure false
  | none => pure false

/-- The digits that a number must have at some place: none are a problem. -/
def someDigits : Reader (List UInt8) := do
  let ds ← digits
  if ds.isEmpty then
    match ← peek with
    | none => fail .ended
    | some _ => fail .malformed
  else pure ds

/-- The fraction and exponent of a number, behind its point. -/
def fractionTail (negative : Bool) (m : Nat) (e : Int) : Reader Float := do
  let ds ← someDigits
  let (m', left) := absorb m ds
  let e' := e - ((ds.length - left : Nat) : Int)
  if ← exponentMark then exponentTail negative m' e' else real negative m' e'

/-- The digits before the point; a zero stands alone. -/
def wholeDigits : Reader (List UInt8) := do
  let ds ← someDigits
  if ds.head? == some (byte '0') && ds.length > 1 then fail .malformed
  else pure ds

/-- A number without its minus sign. -/
def number (negative : Bool) : Reader Number := do
  let ds ← wholeDigits
  let (m, left) := absorb 0 ds
  if ← pointMark then return .real (← fractionTail negative m left)
  if ← exponentMark then return .real (← exponentTail negative m left)
  if 0 < left then return .real (← real negative m left)
  if !negative then return .natural m
  if m == 0 then return .real (-0.0)
  if m ≤ 9223372036854775808 then return .negative m
  return .real (-(UInt64.ofNat m).toFloat)

end ResourceHost.Json.Reader
