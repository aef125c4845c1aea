import ResourceHost.Decimal.Integer

/-!
# Shortest decimals of floats

A finite float is `m * 2 ^ q`.  The reals that round to it form an interval;
of the decimals in this interval `shortest` gives the one with the fewest
digits, and of several the nearest to the float.  Which of two at one distance
counts is up to the format.  All arithmetic is exact.
-/

namespace ResourceHost.Decimal

/-- A positive binary number `m * 2 ^ q`, and whether the float below it is
only half as far away as the float above. -/
structure Binary where
  m : Nat
  q : Int
  narrow : Bool

/-- A decimal number `digits * 10 ^ exponent`. -/
structure Scientific where
  digits : Nat
  exponent : Int
  deriving Repr

/-- Which of two neighbours counts for a float half-way between them. -/
inductive Tie where
  | greater
  | even
  deriving DecidableEq, Repr

namespace Tie

/-- The one of `d` and `d + 1` that counts. -/
def choose (tie : Tie) (d : Nat) : Nat :=
  match tie with
  | .greater => d + 1
  | .even => if d % 2 == 0 then d else d + 1

end Tie

/-- What a float is. -/
inductive FloatClass where
  | nan
  | infinite (negative : Bool)
  | zero (negative : Bool)
  | finite (negative : Bool) (b : Binary)

/-- Takes the bits of a float apart. -/
def classify (bits : UInt64) : FloatClass :=
  let negative := bits.toNat / Nat.pow 2 63 == 1
  let e : Nat := bits.toNat / Nat.pow 2 52 % Nat.pow 2 11
  let f : Nat := bits.toNat % Nat.pow 2 52
  if e == 2047 then (if f == 0 then .infinite negative else .nan)
  else if e == 0 then
    if f == 0 then .zero negative else .finite negative ⟨f, -1074, false⟩
  else .finite negative ⟨Nat.pow 2 52 + f, (e : Int) - 1075, f == 0 && e != 1⟩

namespace Binary

/-- Four times the number, as a fraction. -/
def fourfold (b : Binary) : Nat × Nat :=
  if 0 ≤ b.q then (4 * b.m * Nat.pow 2 b.q.toNat, 1)
  else (4 * b.m, Nat.pow 2 (-b.q).toNat)

/-- The unit of the fourfold fraction: the weight of the last bit of `m`. -/
def unit (b : Binary) : Nat := if 0 ≤ b.q then Nat.pow 2 b.q.toNat else 1

/-- Whether a real `num / den` rounds to the number.  The ends of the interval
do if `m` is even. -/
def covers (b : Binary) (num den : Nat) : Bool :=
  let (v, w) := b.fourfold
  let low := v - (if b.narrow then 1 else 2) * b.unit
  let high := v + 2 * b.unit
  -- low / (4 w) against num / den, and num / den against high / (4 w)
  let x := 4 * w * num
  if b.m % 2 == 0 then decide (low * den ≤ x ∧ x ≤ high * den)
  else decide (low * den < x ∧ x < high * den)

/-- The exponent `p` with `10 ^ p ≤ m * 2 ^ q < 10 ^ (p + 1)`. -/
def magnitude (b : Binary) : Int :=
  let (v, w) := b.fourfold
  let den := 4 * w
  if den ≤ v then ((Nat.toDigits 10 (v / den)).length : Int) - 1
  else -((Nat.toDigits 10 ((den + v - 1) / v - 1)).length : Int)

/-- The decimal with the unit `10 ^ e` nearest to the number among those that
round to it. -/
def onGrid? (b : Binary) (tie : Tie) (e : Int) : Option Scientific :=
  let (v, w) := b.fourfold
  -- the number is num / den units
  let num := if 0 ≤ e then v else v * Nat.pow 10 (-e).toNat
  let den := if 0 ≤ e then 4 * w * Nat.pow 10 e.toNat else 4 * w
  let d := num / den
  let fits := fun k : Nat =>
    if 0 ≤ e then b.covers (k * Nat.pow 10 e.toNat) 1
    else b.covers k (Nat.pow 10 (-e).toNat)
  let down := d != 0 && fits d
  let up := fits (d + 1)
  if down && up then
    let k := if 2 * (num % den) < den then d
      else if 2 * (num % den) = den then tie.choose d
      else d + 1
    some ⟨k, e⟩
  else if down then some ⟨d, e⟩
  else if up then some ⟨d + 1, e⟩
  else none

/-- Tries one digit more at a time, `more` times at the most. -/
def refine (b : Binary) (tie : Tie) (p : Int) :
    (more : Nat) → (n : Nat) → Scientific
  | 0, n => (b.onGrid? tie (p - n)).getD ⟨0, 0⟩
  | more + 1, n =>
    match b.onGrid? tie (p - n) with
    | some s => s
    | none => refine b tie p more (n + 1)

end Binary

/-- Moves zeros at the end of the digits into the exponent. -/
def Scientific.stripped (s : Scientific) : Scientific :=
  let zeros := ((Nat.toDigits 10 s.digits).reverse.takeWhile (· == '0')).length
  if s.digits == 0 then ⟨0, 0⟩
  else ⟨s.digits / Nat.pow 10 zeros, s.exponent + zeros⟩

/-- The decimal of fewest digits that rounds to a number: seventeen are
enough. -/
def shortest (tie : Tie) (b : Binary) : Scientific :=
  (b.refine tie b.magnitude 16 0).stripped

/-- `n` zeros. -/
def zeros (n : Nat) : List Char := List.replicate n '0'

/-- A decimal without an exponent, filled up with zeros. -/
def Scientific.positional (s : Scientific) : List Char :=
  let ds := Nat.toDigits 10 s.digits
  if 0 ≤ s.exponent then ds ++ zeros s.exponent.toNat
  else
    let places := (-s.exponent).toNat
    if places < ds.length then
      ds.take (ds.length - places) ++ '.' :: ds.drop (ds.length - places)
    else '0' :: '.' :: zeros (places - ds.length) ++ ds

/-- A minus sign where it is due. -/
def signed (negative : Bool) (cs : List Char) : String :=
  String.ofList (if negative then '-' :: cs else cs)

/-- A float as people read it: the shortest decimal, the greater of two, and
never with an exponent. -/
def ofFloat (x : Float) : String :=
  match classify x.toBits with
  | .nan => "NaN"
  | .infinite negative => signed negative ['i', 'n', 'f']
  | .zero negative => signed negative ['0']
  | .finite negative b => signed negative (shortest .greater b).positional

/-- An exponent with its sign. -/
def signedExponent (e : Int) : List Char :=
  if 0 ≤ e then '+' :: (ofInt e).toList else (ofInt e).toList

/-- A decimal with an exponent, one digit before the point. -/
def Scientific.exponential (s : Scientific) : List Char :=
  let ds := Nat.toDigits 10 s.digits
  let e := signedExponent (s.exponent + ds.length - 1)
  match ds with
  | [d] => d :: 'e' :: e
  | d :: rest => d :: '.' :: rest ++ 'e' :: e
  | [] => []

/-- A float in a JSON text: the shortest decimal, the even one of two, with a
point from `1e-5` up to `1e16` and with an exponent outside. -/
def jsonOfFloat (x : Float) : String :=
  match classify x.toBits with
  | .nan => "null"
  | .infinite _ => "null"
  | .zero negative => signed negative ['0', '.', '0']
  | .finite negative b =>
    let s := shortest .even b
    let point := s.exponent + (Nat.toDigits 10 s.digits).length
    if 0 ≤ s.exponent ∧ point ≤ 16 then
      signed negative (s.positional ++ ['.', '0'])
    else if -5 < point ∧ point ≤ 16 then signed negative s.positional
    else signed negative s.exponential

end ResourceHost.Decimal
