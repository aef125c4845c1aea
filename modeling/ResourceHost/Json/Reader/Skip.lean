import ResourceHost.Json.Reader.Number
import ResourceHost.Json.Reader.Text

/-!
# Skipping JSON values

Values that nobody wants are skipped.  They must be well formed, but may nest
to any depth, and neither the size of a number nor the characters of a text
are looked at.
-/

namespace ResourceHost.Json.Reader

variable {α : Type}

/-- A text that nobody wants, behind its opening quote: escapes must be well
formed, their characters need not exist. -/
def skipTextBytes (s : List UInt8) : Except Problem (List UInt8) :=
  match s with
  | [] => .error .ended
  | b :: rest =>
    if b == byte '"' then .ok rest
    else if b == byte '\\' then
      match rest with
      | [] => .error .ended
      | c :: rest' =>
        if c == byte 'u' then
          match fourDigits rest' with
          | .ok _ => skipTextBytes (rest'.drop 4)
          | .error p => .error p
        else if (shortEscape? c).isSome then skipTextBytes rest'
        else .error .malformed
    else if isControl b then .error .malformed
    else skipTextBytes rest
termination_by s.length
decreasing_by all_goals simp only [List.length_cons, List.length_drop]; omega

def skipText : Reader Unit :=
  fun _ s => (skipTextBytes s).map fun rest => ((), rest)

/-- Digits that must be there, in a number that nobody wants. -/
def skipDigits : Reader (List UInt8) := do
  let ds ← digits
  if ds.isEmpty then fail .malformed else pure ds

/-- The exponent of a number that nobody wants, if there is one. -/
def skipExponent : Reader Unit := do
  if ← exponentMark then
    match ← peek with
    | some b => if b == byte '+' || b == byte '-' then let _ ← next
    | none => pure ()
    let _ ← skipDigits

/-- A number that nobody wants, without its minus sign. -/
def skipNumber : Reader Unit := do
  let ds ← skipDigits
  if ds.head? == some (byte '0') && ds.length > 1 then fail .malformed
  if ← pointMark then
    let _ ← skipDigits
  skipExponent

/-- An array or an object that has been entered. -/
inductive Bracket where
  | array
  | object

/-- The key and colon of a member that nobody wants. -/
def skipKey : Reader Unit := do
  match ← look with
  | none => fail .ended
  | some b =>
    if b == byte '"' then
      let _ ← next
      skipText
      match ← look with
      | none => fail .ended
      | some c => if c == byte ':' then let _ ← next else fail .malformed
    else fail .malformed

mutual

/-- Skips a value inside the open brackets, and on to where the outermost of
them is closed. -/
def skipValue : Nat → List Bracket → Reader Unit
  | 0, _ => fail .ended
  | n + 1, stack => do
    match ← look with
    | none => fail .ended
    | some b =>
      if b == byte '[' then
        let _ ← next
        match ← look with
        | none => fail .ended
        | some c =>
          if c == byte ']' then
            let _ ← next
            skipAfter n stack
          else skipValue n (.array :: stack)
      else if b == byte '\x7b' then
        let _ ← next
        match ← look with
        | none => fail .ended
        | some c =>
          if c == byte '\x7d' then
            let _ ← next
            skipAfter n stack
          else
            skipKey
            skipValue n (.object :: stack)
      else
        if b == byte 'n' then let _ ← next; nullTail
        else if b == byte 't' then let _ ← next; trueTail
        else if b == byte 'f' then let _ ← next; falseTail
        else if b == byte '"' then let _ ← next; skipText
        else if b == byte '-' then let _ ← next; skipNumber
        else if isDigit b then skipNumber
        else fail .malformed
        skipAfter n stack

/-- Goes on behind a skipped value. -/
def skipAfter : Nat → List Bracket → Reader Unit
  | _, [] => pure ()
  | 0, _ => fail .ended
  | n + 1, .array :: stack => do
    match ← look with
    | none => fail .ended
    | some b =>
      if b == byte ',' then
        let _ ← next
        skipValue n (.array :: stack)
      else if b == byte ']' then
        let _ ← next
        skipAfter n stack
      else fail .malformed
  | n + 1, .object :: stack => do
    match ← look with
    | none => fail .ended
    | some b =>
      if b == byte ',' then
        let _ ← next
        skipKey
        skipValue n (.object :: stack)
      else if b == byte '\x7d' then
        let _ ← next
        skipAfter n stack
      else fail .malformed

end

/-- Skips a value that nobody wants. -/
def skip : Reader Unit := fun scope s => skipValue (2 * scope.turns) [] scope s

end ResourceHost.Json.Reader
