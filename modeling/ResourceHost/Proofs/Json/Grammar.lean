import ResourceHost.Json.Reader.Skip

/-!
# The grammar of JSON

Which characters are the text of a value, whatever anybody makes of it: with
blanks between the tokens, escapes in any of their forms, numbers of any size,
and arrays and objects inside each other to any depth.
-/

namespace ResourceHost.Json

/-! ### Blanks -/

/-- What may stand between tokens. -/
def Blank (cs : List Char) : Prop :=
  ∀ c ∈ cs, c = ' ' ∨ c = '\t' ∨ c = '\n' ∨ c = '\r'

/-- What stands before an item or a member: a comma, unless it is the first. -/
inductive Lead : (first : Bool) → List Char → Prop where
  | first {w : List Char} (hw : Blank w) : Lead true w
  | next {w w' : List Char} (hw : Blank w) (hw' : Blank w') :
      Lead false (w ++ ',' :: w')

/-! ### Texts -/

/-- Stands for itself between quotes. -/
def Bare (c : Char) : Prop := c ≠ '"' ∧ c ≠ '\\' ∧ ¬ c.toNat < 0x20

/-- The escapes of one letter, and what they stand for. -/
def shortEscapes : List (Char × Char) :=
  [('"', '"'), ('\\', '\\'), ('/', '/'), ('b', '\x08'), ('f', '\x0c'),
    ('n', '\n'), ('r', '\r'), ('t', '\t')]

/-- Four hexadecimal digits in either case, and their number. -/
inductive CodeUnit : List Char → Nat → Prop where
  | digits {a b c d : Char} {x y z w : Nat} (ha : Hex.value? a = some x)
      (hb : Hex.value? b = some y) (hc : Hex.value? c = some z)
      (hd : Hex.value? d = some w) :
      CodeUnit [a, b, c, d] (((x * 16 + y) * 16 + z) * 16 + w)

/-- The number is half of a surrogate pair. -/
abbrev IsHigh (n : Nat) : Prop := 0xD800 ≤ n ∧ n ≤ 0xDBFF

/-- The number is the other half. -/
abbrev IsLow (n : Nat) : Prop := 0xDC00 ≤ n ∧ n ≤ 0xDFFF

/-- The characters between the quotes of a text, and those that the text has. -/
inductive Spells : List Char → List Char → Prop where
  | nil : Spells [] []
  | bare {c : Char} {cs s : List Char} (hc : Bare c) (h : Spells cs s) :
      Spells (c :: cs) (c :: s)
  | short {e c : Char} {cs s : List Char} (he : (e, c) ∈ shortEscapes)
      (h : Spells cs s) : Spells ('\\' :: e :: cs) (c :: s)
  | code {u cs s : List Char} {n : Nat} (hu : CodeUnit u n)
      (hn : ¬ IsHigh n ∧ ¬ IsLow n) (h : Spells cs s) :
      Spells ('\\' :: 'u' :: (u ++ cs)) (Char.ofNat n :: s)
  | pair {u u' cs s : List Char} {n n' : Nat} (hu : CodeUnit u n)
      (hu' : CodeUnit u' n') (hn : IsHigh n) (hn' : IsLow n')
      (h : Spells cs s) :
      Spells ('\\' :: 'u' :: (u ++ '\\' :: 'u' :: (u' ++ cs)))
        (Char.ofNat (0x10000 + (n - 0xD800) * 0x400 + (n' - 0xDC00)) :: s)

/-- The characters between the quotes of a text, which may escape halves of
pairs. -/
inductive Body : List Char → Prop where
  | nil : Body []
  | bare {c : Char} {cs : List Char} (hc : Bare c) (h : Body cs) :
      Body (c :: cs)
  | short {e c : Char} {cs : List Char} (he : (e, c) ∈ shortEscapes)
      (h : Body cs) : Body ('\\' :: e :: cs)
  | code {u cs : List Char} {n : Nat} (hu : CodeUnit u n) (h : Body cs) :
      Body ('\\' :: 'u' :: (u ++ cs))

/-! ### Numbers -/

/-- One digit or more. -/
def Digits (ds : List Char) : Prop := ds ≠ [] ∧ ∀ d ∈ ds, d.isDigit

/-- The digits before the point, where a zero stands alone. -/
def Whole (ds : List Char) : Prop :=
  Digits ds ∧ (ds.head? = some '0' → ds = ['0'])

inductive Fraction : List Char → Prop where
  | none : Fraction []
  | some {ds : List Char} (hd : Digits ds) : Fraction ('.' :: ds)

inductive Exponent : List Char → Prop where
  | none : Exponent []
  | some {e : Char} {sign ds : List Char} (he : e = 'e' ∨ e = 'E')
      (hs : sign = [] ∨ sign = ['+'] ∨ sign = ['-']) (hd : Digits ds) :
      Exponent (e :: (sign ++ ds))

/-- A number without its minus sign. -/
inductive Magnitude : List Char → Prop where
  | parts {ds f e : List Char} (hd : Whole ds) (hf : Fraction f)
      (he : Exponent e) : Magnitude (ds ++ (f ++ e))

/-! ### Values -/

namespace Reader.Bracket

def opening : Bracket → Char
  | .array => '['
  | .object => '\x7b'

def closing : Bracket → Char
  | .array => ']'
  | .object => '\x7d'

end Reader.Bracket

open Reader (Bracket)

/-- The values that are words. -/
def words : List (List Char) :=
  [['n', 'u', 'l', 'l'], ['t', 'r', 'u', 'e'], ['f', 'a', 'l', 's', 'e']]

/-- The text of a member, with blanks on both sides of the colon. -/
def memberText (key w w' value : List Char) : List Char :=
  '"' :: (key ++ '"' :: (w ++ ':' :: (w' ++ value)))

/-- The parts of the grammar. -/
inductive Part where
  | value
  /-- An item of an array, or a member of an object. -/
  | element (k : Bracket)
  /-- All the items or members that follow, the first of them included or
  not. -/
  | inside (k : Bracket) (first : Bool)

/-- The texts of the parts of the grammar. -/
inductive Written : Part → List Char → Prop where
  | word {cs : List Char} (h : cs ∈ words) : Written .value cs
  | text {cs : List Char} (h : Body cs) : Written .value ('"' :: (cs ++ ['"']))
  | positive {cs : List Char} (h : Magnitude cs) : Written .value cs
  | negative {cs : List Char} (h : Magnitude cs) : Written .value ('-' :: cs)
  | enclosed {k : Bracket} {es w : List Char} (h : Written (.inside k true) es)
      (hw : Blank w) : Written .value (k.opening :: (es ++ (w ++ [k.closing])))
  | item {v : List Char} (h : Written .value v) : Written (.element .array) v
  | member {key w w' v : List Char} (hk : Body key) (hw : Blank w)
      (hw' : Blank w') (h : Written .value v) :
      Written (.element .object) (memberText key w w' v)
  | none {k : Bracket} {first : Bool} : Written (.inside k first) []
  | some {k : Bracket} {first : Bool} {l e es : List Char} (hl : Lead first l)
      (h : Written (.element k) e) (hs : Written (.inside k false) es) :
      Written (.inside k first) (l ++ (e ++ es))

end ResourceHost.Json
