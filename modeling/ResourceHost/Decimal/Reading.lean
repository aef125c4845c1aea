import ResourceHost.Decimal.Integer

/-!
# Floats from decimal texts

Reads a sign, digits with a point among or beside them, and an exponent; or
one of the words for infinity and for a value that is no number, in any case.
The float is the nearest to the decimal.
-/

namespace ResourceHost.Decimal

/-- The lower-case form of an ASCII letter. -/
def lower (c : Char) : Char :=
  if 'A' ≤ c ∧ c ≤ 'Z' then Char.ofNat (c.toNat + 32) else c

def isDigit (c : Char) : Bool := (digit? c).isSome

/-- The number that digits write. -/
def valueOf (ds : List Char) : Nat :=
  ds.foldl (fun n c => n * 10 + (digit? c).getD 0) 0

/-- The exponent behind a mantissa: none written is zero. -/
def exponent? : List Char → Option Int
  | [] => some 0
  | e :: cs =>
    if lower e = 'e' then
      let negative := cs.head? == some '-'
      let ds := if negative || cs.head? == some '+' then cs.tail else cs
      if ds.isEmpty || !ds.all isDigit then none
      else some (if negative then -(valueOf ds : Int) else valueOf ds)
    else none

/-- No float lies beyond ten to this power, and none but zero below its
inverse. -/
def reach : Int := 400

/-- The float nearest to `m * 10 ^ e`, where `m` has `width` digits. -/
def nearest (m width : Nat) (e : Int) : Float :=
  if m == 0 then 0.0
  else if reach < e + width then 1.0 / 0.0
  else if e + width < -reach then 0.0
  else if 0 ≤ e then Float.ofScientific m false e.toNat
  else Float.ofScientific m true (-e).toNat

/-- A float without a sign. -/
def magnitude? (cs : List Char) : Option Float :=
  let word := cs.map lower
  if word = "inf".toList ∨ word = "infinity".toList then some (1.0 / 0.0)
  else if word = "nan".toList then some (0.0 / 0.0)
  else
    let whole := cs.takeWhile isDigit
    let rest := cs.dropWhile isDigit
    let fraction :=
      if rest.head? == some '.' then rest.tail.takeWhile isDigit else []
    let rest :=
      if rest.head? == some '.' then rest.tail.dropWhile isDigit else rest
    let ds := whole ++ fraction
    if ds.isEmpty then none
    else do
      let e ← exponent? rest
      let significant := ds.dropWhile (· == '0')
      some (nearest (valueOf ds) significant.length (e - fraction.length))

/-- The float that a text writes. -/
def readFloat? (s : String) : Option Float :=
  match s.toList with
  | '-' :: cs => (magnitude? cs).map fun x => -x
  | '+' :: cs => magnitude? cs
  | cs => magnitude? cs

end ResourceHost.Decimal
