import ResourceHost.Decimal.Reading
import ResourceHost.Decimal.Shortest

/-!
# Values of console variables

A value is typed by what was typed in: an integer if the text is one, else a
float, else a truth value, else a text.  Texts are displayed in quotes, so
that a displayed value reads back as what it was.
-/

namespace ResourceHost.Console

/-- The value of a console variable. -/
inductive Value where
  | integer (n : Int64)
  | real (x : Float)
  | text (s : String)
  | truth (b : Bool)

/-- A character repeated at both ends of a text is taken off. -/
def stripEnds (c : Char) (cs : List Char) : List Char :=
  ((cs.dropWhile (· == c)).reverse.dropWhile (· == c)).reverse

/-- The word of a truth value. -/
def truthWord (b : Bool) : String := if b then "true" else "false"

namespace Value

/-- Reads what was typed. -/
def parse (s : String) : Value :=
  match Decimal.readInt64? s with
  | some n => .integer n
  | none =>
    match Decimal.readFloat? s with
    | some x => .real x
    | none =>
      if s = "true" then .truth true
      else if s = "false" then .truth false
      else .text (String.ofList (stripEnds '"' s.toList))

/-- The value as an integer; floats are cut off and kept within 64 bits. -/
def asInteger? : Value → Option Int64
  | .integer n => some n
  | .real x => some x.toInt64
  | .truth b => some (if b then 1 else 0)
  | .text s => Decimal.readInt64? s

/-- Whether the value counts as true. -/
def asTruth : Value → Bool
  | .truth b => b
  | .integer n => n != 0
  | .real x => x != 0.0
  | .text s =>
    s != "" && s != "0" && s.toList.map Decimal.lower != "false".toList

/-- The value as a text, without quotes. -/
def asText : Value → String
  | .text s => s
  | .integer n => Decimal.ofInt n.toInt
  | .real x => Decimal.ofFloat x
  | .truth b => truthWord b

/-- The value as it is printed. -/
def display : Value → String
  | .text s => "\"" ++ s ++ "\""
  | v => v.asText

end Value

end ResourceHost.Console
