/-!
# Integers as decimal texts

Reading takes an optional sign and digits, from left to right, and stops at
the first character that is no digit or takes the number out of range.
-/

namespace ResourceHost.Decimal

/-- Why a text is no integer of the wanted range. -/
inductive IntegerProblem where
  | empty
  | invalidDigit
  | tooLarge
  | tooSmall
  deriving DecidableEq, Repr

/-- The wording of a problem. -/
def IntegerProblem.text : IntegerProblem → String
  | .empty => "cannot parse integer from empty string"
  | .invalidDigit => "invalid digit found in string"
  | .tooLarge => "number too large to fit in target type"
  | .tooSmall => "number too small to fit in target type"

/-- The value of a decimal digit. -/
def digit? (c : Char) : Option Nat :=
  if '0' ≤ c ∧ c ≤ '9' then some (c.toNat - 48) else none

/-- Appends digits to `n`, which may not exceed `max`. -/
def appendDigits (max : Nat) (beyond : IntegerProblem) :
    Nat → List Char → Except IntegerProblem Nat
  | n, [] => .ok n
  | n, c :: cs =>
    match digit? c with
    | none => .error .invalidDigit
    | some d =>
      if n * 10 + d ≤ max then appendDigits max beyond (n * 10 + d) cs
      else .error beyond

/-- Reads digits, of which there must be some. -/
def readDigits (max : Nat) (beyond : IntegerProblem) :
    List Char → Except IntegerProblem Nat
  | [] => .error .invalidDigit
  | cs => appendDigits max beyond 0 cs

/-- Reads a natural number up to `max`.  A plus sign may stand before it. -/
def readNatural (max : Nat) : List Char → Except IntegerProblem Nat
  | [] => .error .empty
  | '+' :: cs => readDigits max .tooLarge cs
  | cs => readDigits max .tooLarge cs

/-- Reads an integer from `-low` up to `high`.  A sign may stand before it. -/
def readInteger (low high : Nat) : List Char → Except IntegerProblem Int
  | [] => .error .empty
  | '-' :: cs => (readDigits low .tooSmall cs).map fun n => -(n : Int)
  | '+' :: cs => (readDigits high .tooLarge cs).map fun n => (n : Int)
  | cs => (readDigits high .tooLarge cs).map fun n => (n : Int)

/-- The largest number of 32 bits. -/
def maxWord32 : Nat := 4294967295

/-- The largest number of 64 bits. -/
def maxWord64 : Nat := 18446744073709551615

/-- Reads a signed 64-bit integer. -/
def readInt64? (s : String) : Option Int64 :=
  match readInteger 9223372036854775808 9223372036854775807 s.toList with
  | .ok n => some (Int64.ofInt n)
  | .error _ => none

/-- Reads an unsigned 32-bit number. -/
def readWord32 (s : String) : Except IntegerProblem UInt32 :=
  (readNatural maxWord32 s.toList).map UInt32.ofNat

/-- The decimal digits of a number. -/
def ofNat (n : Nat) : String := String.ofList (Nat.toDigits 10 n)

/-- A number with a minus sign where it is negative. -/
def ofInt : Int → String
  | .ofNat n => ofNat n
  | .negSucc n => "-" ++ ofNat (n + 1)

end ResourceHost.Decimal
