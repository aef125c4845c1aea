import ResourceHost.Json.Reader.Number
import ResourceHost.Json.Reader.Text

/-!
# Reading values of a wanted shape

A reader knows what type it wants, so a value of another shape is a problem
where it begins, before anything behind it is looked at.
-/

namespace ResourceHost.Json.Reader

variable {α : Type}

/-- The problem of a value that is not of the wanted shape: the one inside its
first token, if there is one. -/
def mismatch : Reader α := do
  match ← peek with
  | none => fail .ended
  | some b =>
    if b == byte 'n' then let _ ← next; nullTail; fail .shape
    else if b == byte 't' then let _ ← next; trueTail; fail .shape
    else if b == byte 'f' then let _ ← next; falseTail; fail .shape
    else if b == byte '-' then let _ ← next; let _ ← number true; fail .shape
    else if isDigit b then let _ ← number false; fail .shape
    else if b == byte '"' then let _ ← next; let _ ← textTail; fail .shape
    else if b == byte '[' || b == byte '\x7b' then fail .shape
    else fail .malformed

/-- Reads a value that begins with `first`, by what follows that byte. -/
def beginning (first : Char) (tail : Reader α) : Reader α := do
  match ← look with
  | none => fail .ended
  | some b => if b == byte first then let _ ← next; tail else mismatch

/-- A text. -/
def text : Reader String := beginning '"' textTail

/-- A truth value. -/
def truth : Reader Bool := do
  match ← look with
  | none => fail .ended
  | some b =>
    if b == byte 't' then let _ ← next; trueTail; pure true
    else if b == byte 'f' then let _ ← next; falseTail; pure false
    else mismatch

/-- An integer from zero up to `max`. -/
def natural (max : Nat) : Reader Nat := do
  let n ← do
    match ← look with
    | none => fail .ended
    | some b =>
      if b == byte '-' then let _ ← next; number true
      else if isDigit b then number false
      else mismatch
  match n with
  | .natural n => if n ≤ max then pure n else fail .shape
  | _ => fail .shape

/-- `null`, or a value. -/
def optional (value : Reader α) : Reader (Option α) := do
  match ← look with
  | some b =>
    if b == byte 'n' then let _ ← next; nullTail; pure none
    else return some (← value)
  | none => return some (← value)

/-- Reads inside one more array or object. -/
def nested (inside : Reader α) : Reader α := fun scope s =>
  match scope.depth with
  | 0 => .error .malformed
  | d + 1 => inside { scope with depth := d } s

/-- Whether another item of an array follows; takes the comma before it. -/
def another (first : Bool) : Reader Bool := do
  match ← look with
  | none => fail .ended
  | some b =>
    if b == byte ']' then pure false
    else if first then pure true
    else if b == byte ',' then
      let _ ← next
      match ← look with
      | none => fail .ended
      | some c => if c == byte ']' then fail .malformed else pure true
    else fail .malformed

/-- The key of another member of an object, if one follows. -/
def anotherKey (first : Bool) : Reader (Option String) := do
  match ← look with
  | none => fail .ended
  | some b =>
    if b == byte '\x7d' then pure none
    else if first then
      if b == byte '"' then let _ ← next; return some (← textTail)
      else fail .malformed
    else if b == byte ',' then
      let _ ← next
      match ← look with
      | none => fail .ended
      | some c =>
        if c == byte '"' then let _ ← next; return some (← textTail)
        else fail .malformed
    else fail .malformed

/-- The colon between a key and its value. -/
def colon : Reader Unit := do
  match ← look with
  | none => fail .ended
  | some b => if b == byte ':' then let _ ← next else fail .malformed

/-- The bracket that closes an array or an object. -/
def close (bracket : Char) : Reader Unit := do
  match ← look with
  | none => fail .ended
  | some b => if b == byte bracket then let _ ← next else fail .malformed

/-- The items of an array, those read so far in `done`, last first. -/
def items (item : Reader α) : Nat → List α → Reader (List α)
  | 0, _ => fail .ended
  | n + 1, done => do
    if ← another done.isEmpty then
      let a ← item
      items item n (a :: done)
    else pure done.reverse

/-- The members of an object, those read so far in `done`, last first. -/
def members (value : Reader α) :
    Nat → List (String × α) → Reader (List (String × α))
  | 0, _ => fail .ended
  | n + 1, done => do
    match ← anotherKey done.isEmpty with
    | some key =>
      colon
      let a ← value
      members value n ((key, a) :: done)
    | none => pure done.reverse

/-- What is inside an array, and the bracket after it. -/
def insideArray (item : Reader α) : Reader (List α) := do
  let as ← nested fun scope s => items item scope.turns [] scope s
  close ']'
  pure as

/-- What is inside an object, and the bracket after it. -/
def insideObject (value : Reader α) : Reader (List (String × α)) := do
  let ms ← nested fun scope s => members value scope.turns [] scope s
  close '\x7d'
  pure ms

/-- An array. -/
def array (item : Reader α) : Reader (List α) :=
  beginning '[' (insideArray item)

/-- An object, its members in the order of the text. -/
def object (value : Reader α) : Reader (List (String × α)) :=
  beginning '\x7b' (insideObject value)

end ResourceHost.Json.Reader
