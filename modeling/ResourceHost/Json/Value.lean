import ResourceHost.Json.Reader.Shaped

/-!
# JSON values

Any JSON value as a tree.  `Value.reader` reads one with the members of its
objects as the text has them; `Value.sorted` is the meaning of such a tree:
every object sorted by key, a repeated key with its last value.
-/

namespace ResourceHost

/-! ### Maps sorted by key -/

namespace Sorted

variable {α : Type}

/-- Files `a` under `k` in a list sorted by key, over what was there.  Keys are
compared by code points, which is the order of their UTF-8 bytes. -/
def insert (k : String) (a : α) : List (String × α) → List (String × α)
  | [] => [(k, a)]
  | (k', b) :: rest =>
    if k < k' then (k, a) :: (k', b) :: rest
    else if k = k' then (k, a) :: rest
    else (k', b) :: insert k a rest

/-- The sorted list of some members; of two with one key the later counts. -/
def ofMembers (ms : List (String × α)) : List (String × α) :=
  ms.foldl (fun sorted m => insert m.1 m.2 sorted) []

/-- What is filed under `k`. -/
def get? (k : String) : List (String × α) → Option α
  | [] => none
  | (k', a) :: rest => if k' = k then some a else get? k rest

end Sorted

namespace Json

/-- A JSON value.  Integers lie in the range of 64 bits, with or without
sign. -/
inductive Value where
  | null
  | truth (b : Bool)
  | integer (n : Int)
  | real (x : Float)
  | text (s : String)
  | array (items : List Value)
  | object (members : List (String × Value))

namespace Value

/-- The value of a number. -/
def ofNumber : Reader.Number → Value
  | .natural n => .integer n
  | .negative n => .integer (-n)
  | .real x => .real x

/-- Reads a value with at most `depth` arrays and objects inside each other. -/
def readTo : (depth : Nat) → Reader Value
  | 0 => do
    match ← Reader.look with
    | none => Reader.fail .ended
    | some b => leaf b
  | depth + 1 => do
    match ← Reader.look with
    | none => Reader.fail .ended
    | some b =>
      if b == Reader.byte '[' then
        let _ ← Reader.next
        return .array (← Reader.insideArray (readTo depth))
      else if b == Reader.byte '\x7b' then
        let _ ← Reader.next
        return .object (← Reader.insideObject (readTo depth))
      else leaf b
where
  /-- A value that begins with `b` and holds no other. -/
  leaf (b : UInt8) : Reader Value := do
    if b == Reader.byte 'n' then
      let _ ← Reader.next; Reader.nullTail; return .null
    else if b == Reader.byte 't' then
      let _ ← Reader.next; Reader.trueTail; return .truth true
    else if b == Reader.byte 'f' then
      let _ ← Reader.next; Reader.falseTail; return .truth false
    else if b == Reader.byte '"' then
      let _ ← Reader.next; return .text (← Reader.textTail)
    else if b == Reader.byte '-' then
      let _ ← Reader.next; return ofNumber (← Reader.number true)
    else if Reader.isDigit b then return ofNumber (← Reader.number false)
    else Reader.fail .malformed

/-- Reads any value. -/
def reader : Reader Value := fun scope s => readTo scope.depth scope s

mutual

/-- The value with all its objects sorted. -/
def sorted : Value → Value
  | .array items => .array (sortedItems items)
  | .object members => .object (Sorted.ofMembers (sortedMembers members))
  | v => v

/-- Items with all their objects sorted. -/
def sortedItems : List Value → List Value
  | [] => []
  | v :: vs => sorted v :: sortedItems vs

/-- Members, in their order, with all the objects inside them sorted. -/
def sortedMembers : List (String × Value) → List (String × Value)
  | [] => []
  | (k, v) :: ms => (k, sorted v) :: sortedMembers ms

end

/-- The value of a whole text. -/
def ofBytes (bytes : List UInt8) : Except Problem Value :=
  (Reader.run reader bytes).map sorted

end Value

end Json

end ResourceHost
