import ResourceHost.Decimal.Shortest
import ResourceHost.Json.Value
import ResourceHost.Param

/-!
# Printing JSON

Compact JSON texts: no space between tokens.  Quotes, backslashes and control
characters are escaped, every other character stands for itself.
-/

namespace ResourceHost.Json

namespace Print

/-- A character inside a text. -/
def char (c : Char) : List Char :=
  if c = '"' then ['\\', '"']
  else if c = '\\' then ['\\', '\\']
  else if c = '\x08' then ['\\', 'b']
  else if c = '\x0c' then ['\\', 'f']
  else if c = '\n' then ['\\', 'n']
  else if c = '\r' then ['\\', 'r']
  else if c = '\t' then ['\\', 't']
  else if c.toNat < 0x20 then
    ['\\', 'u', '0', '0', Hex.digit 'a' (c.toNat / 16),
      Hex.digit 'a' (c.toNat % 16)]
  else [c]

/-- A text with its quotes. -/
def text (s : String) : List Char := '"' :: s.toList.flatMap char ++ ['"']

/-- Printed things with commas between them. -/
def commas : List (List Char) → List Char
  | [] => []
  | [x] => x
  | x :: y :: rest => x ++ ',' :: commas (y :: rest)

/-- An array of printed items. -/
def array (items : List (List Char)) : List Char := '[' :: commas items ++ [']']

/-- A printed member. -/
def member (key : String) (value : List Char) : List Char :=
  text key ++ ':' :: value

/-- An object of printed members. -/
def object (members : List (List Char)) : List Char :=
  '\x7b' :: commas members ++ ['\x7d']

def truth (b : Bool) : List Char := (if b then "true" else "false").toList

def null : List Char := "null".toList

end Print

namespace Value

mutual

/-- The text of a JSON value, its members in their order. -/
def print : Value → List Char
  | .null => Print.null
  | .truth b => Print.truth b
  | .integer n => (Decimal.ofInt n).toList
  | .real x => (Decimal.jsonOfFloat x).toList
  | .text s => Print.text s
  | .array items => Print.array (printItems items)
  | .object members => Print.object (printMembers members)

def printItems : List Value → List (List Char)
  | [] => []
  | v :: vs => print v :: printItems vs

def printMembers : List (String × Value) → List (List Char)
  | [] => []
  | (k, v) :: ms => Print.member k (print v) :: printMembers ms

end

/-- The compact text of a value. -/
def compact (v : Value) : String := String.ofList (print v)

end Value

end ResourceHost.Json

namespace ResourceHost.Param.Value

mutual

/-- A parameter as a JSON value. -/
def toJson : Value → Json.Value
  | .truth b => .truth b
  | .integer n => .integer n.toInt
  | .real x => .real x
  | .text s => .text s
  | .sequence items => .array (itemsToJson items)
  | .map entries => .object (entriesToJson entries)

def itemsToJson : List Value → List Json.Value
  | [] => []
  | v :: vs => toJson v :: itemsToJson vs

def entriesToJson : List (String × Value) → List (String × Json.Value)
  | [] => []
  | (k, v) :: es => (k, toJson v) :: entriesToJson es

end

mutual

/-- Whether a parameter holds no float. -/
def isExact : Value → Bool
  | .real _ => false
  | .sequence items => itemsExact items
  | .map entries => entriesExact entries
  | _ => true

def itemsExact : List Value → Bool
  | [] => true
  | v :: vs => isExact v && itemsExact vs

def entriesExact : List (String × Value) → Bool
  | [] => true
  | (_, v) :: es => isExact v && entriesExact es

end

/-- The compact JSON text of a parameter. -/
def compact (v : Value) : String := v.toJson.compact

end ResourceHost.Param.Value
