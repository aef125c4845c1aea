/-!
# Readers

Readers take the bytes that are left and give a value with the bytes after
it, or the first problem they meet.
-/

namespace ResourceHost.Json

/-- Why a text cannot be read. -/
inductive Problem where
  /-- The text is not JSON, or holds something that no value can be read
  from. -/
  | malformed
  /-- A well-formed value of the wrong shape. -/
  | shape
  /-- The text ends too early. -/
  | ended
  deriving DecidableEq, Repr

/-- The class of a problem as a text. -/
def Problem.text : Problem → String
  | .malformed => "json:syntax"
  | .shape => "json:data"
  | .ended => "json:eof"

/-- What bounds a reader. -/
structure Scope where
  /-- How often a loop may turn: more often than there are bytes. -/
  turns : Nat
  /-- How many arrays and objects may be entered, one inside the other. -/
  depth : Nat

/-- Takes bytes, gives a value and the bytes after it. -/
def Reader (α : Type) : Type :=
  Scope → List UInt8 → Except Problem (α × List UInt8)

namespace Reader

variable {α β : Type}

/-- Gives a value and takes nothing. -/
def give (a : α) : Reader α := fun _ s => .ok (a, s)

/-- Reads one thing, then what follows it. -/
def andThen (r : Reader α) (f : α → Reader β) : Reader β := fun scope s =>
  match r scope s with
  | .ok (a, rest) => f a scope rest
  | .error p => .error p

instance : Monad Reader where
  pure := give
  bind := andThen

/-- Stops at a problem. -/
def fail (p : Problem) : Reader α := fun _ _ => .error p

/-- How many nested arrays and objects a text may hold. -/
def maxDepth : Nat := 127

/-- Whether JSON allows a byte between tokens. -/
def isSpace (b : UInt8) : Bool :=
  b == 0x20 || b == 0x0A || b == 0x09 || b == 0x0D

/-- The next byte, which is not taken. -/
def peek : Reader (Option UInt8) := fun _ s => .ok (s.head?, s)

/-- Takes the next byte. -/
def next : Reader (Option UInt8) := fun _ s => .ok (s.head?, s.tail)

/-- Takes the space before the next byte and shows that byte. -/
def look : Reader (Option UInt8) := fun _ s =>
  let rest := s.dropWhile isSpace
  .ok (rest.head?, rest)

/-- The byte of an ASCII character. -/
abbrev byte (c : Char) : UInt8 := c.toNat.toUInt8

/-- Reads a whole text: one value with nothing but space around it. -/
def run (r : Reader α) (bytes : List UInt8) : Except Problem α :=
  match r ⟨bytes.length + 1, maxDepth⟩ bytes with
  | .error p => .error p
  | .ok (a, rest) =>
    if (rest.dropWhile isSpace).isEmpty then .ok a else .error .malformed

/-! ### Words -/

/-- Takes exactly these bytes. -/
def word : List UInt8 → Reader Unit
  | [] => pure ()
  | b :: bs => do
    match ← next with
    | none => fail .ended
    | some c => if c == b then word bs else fail .malformed

/-- What is left of `null`, `true` and `false` after their first letter. -/
def nullTail : Reader Unit := word [byte 'u', byte 'l', byte 'l']
def trueTail : Reader Unit := word [byte 'r', byte 'u', byte 'e']
def falseTail : Reader Unit := word [byte 'a', byte 'l', byte 's', byte 'e']

end Reader

end ResourceHost.Json
