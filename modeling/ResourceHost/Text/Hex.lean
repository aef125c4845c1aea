/-!
# Hexadecimal numerals

Numerals of a fixed width with upper-case digits, and the two lower-case
digits of a byte.
-/

namespace ResourceHost.Hex

/-- The digit of a value below sixteen; `a` begins the letters. -/
def digit (a : Char) (n : Nat) : Char :=
  if n < 10 then Char.ofNat (48 + n) else Char.ofNat (a.toNat + (n - 10))

/-- The last `width` digits of `n` to base sixteen, in upper case. -/
def upper : (width : Nat) → (n : Nat) → List Char
  | 0, _ => []
  | width + 1, n => upper width (n / 16) ++ [digit 'A' (n % 16)]

theorem length_upper (width n : Nat) : (upper width n).length = width := by
  induction width generalizing n with
  | zero => rfl
  | succ width ih => simp [upper, ih]

/-- The two digits of a byte, in lower case. -/
def ofByte (b : UInt8) : List Char :=
  [digit 'a' (b.toNat / 16), digit 'a' (b.toNat % 16)]

/-- Bytes as lower-case digits, two for each. -/
def ofBytes (bytes : List UInt8) : String :=
  String.ofList (bytes.flatMap ofByte)

/-- The value of a digit in either case. -/
def value? (c : Char) : Option Nat :=
  if '0' ≤ c ∧ c ≤ '9' then some (c.toNat - 48)
  else if 'a' ≤ c ∧ c ≤ 'f' then some (c.toNat - 87)
  else if 'A' ≤ c ∧ c ≤ 'F' then some (c.toNat - 55)
  else none

/-- Reads pairs of digits as bytes; a digit without a partner is an error. -/
def toBytes? : List Char → Option (List UInt8)
  | [] => some []
  | [_] => none
  | high :: low :: rest => do
    let h ← value? high
    let l ← value? low
    let bytes ← toBytes? rest
    pure (UInt8.ofNat (16 * h + l) :: bytes)

end ResourceHost.Hex
