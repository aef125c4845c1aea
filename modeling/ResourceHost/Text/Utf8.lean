/-!
# UTF-8

Texts and their bytes.  Reading is strict, `ofBytes?`, or forgiving, `lossy`:
then each longest run of bytes that could still have begun a character, and
each byte that could not, becomes one replacement character.
-/

namespace ResourceHost.Text

/-- The bytes of a text. -/
def toBytes (s : String) : List UInt8 := s.toUTF8.data.toList

/-- The text with these bytes, if they are well formed. -/
def ofBytes? (bytes : List UInt8) : Option String :=
  String.fromUTF8? ⟨bytes.toArray⟩

/-- What a first byte asks of the bytes after it: how many there are, the
bounds of the first of them (the others lie between 0x80 and 0xBF), and the
bits that it brings itself. -/
structure Lead where
  tails : Nat
  low : UInt8
  high : UInt8
  bits : Nat

/-- The demand of a first byte, if it can begin a character. -/
def lead? (b : UInt8) : Option Lead :=
  if b < 0x80 then some ⟨0, 0, 0, b.toNat⟩
  else if b < 0xC2 then none
  else if b < 0xE0 then some ⟨1, 0x80, 0xBF, b.toNat - 0xC0⟩
  else if b == 0xE0 then some ⟨2, 0xA0, 0xBF, 0⟩
  else if b == 0xED then some ⟨2, 0x80, 0x9F, 0xD⟩
  else if b < 0xF0 then some ⟨2, 0x80, 0xBF, b.toNat - 0xE0⟩
  else if b == 0xF0 then some ⟨3, 0x90, 0xBF, 0⟩
  else if b == 0xF4 then some ⟨3, 0x80, 0x8F, 4⟩
  else if b < 0xF4 then some ⟨3, 0x80, 0xBF, b.toNat - 0xF0⟩
  else none

/-- Reads the bytes that a lead demands.  Gives the character, or none where
they break off, with what is left. -/
def tails : Lead → List UInt8 → Option Char × List UInt8
  | ⟨0, _, _, bits⟩, rest => (some (Char.ofNat bits), rest)
  | ⟨_ + 1, _, _, _⟩, [] => (none, [])
  | ⟨n + 1, low, high, bits⟩, b :: rest =>
    if low ≤ b ∧ b ≤ high then
      tails ⟨n, 0x80, 0xBF, bits * 64 + (b.toNat - 0x80)⟩ rest
    else (none, b :: rest)

theorem length_tails_le (l : Lead) (bytes : List UInt8) :
    (tails l bytes).2.length ≤ bytes.length := by
  fun_induction tails l bytes with
  | case1 => simp
  | case2 => simp
  | case3 n low high bits b rest h ih => simp only [List.length_cons]; omega
  | case4 => simp

/-- The characters of any bytes. -/
def lossyChars (bytes : List UInt8) : List Char :=
  match bytes with
  | [] => []
  | b :: rest =>
    match lead? b with
    | none => '\uFFFD' :: lossyChars rest
    | some l =>
      (tails l rest).1.getD '\uFFFD' :: lossyChars (tails l rest).2
termination_by bytes.length
decreasing_by
  · exact Nat.lt_succ_self _
  · exact Nat.lt_succ_of_le (length_tails_le l rest)

/-- The text of any bytes. -/
def lossy (bytes : List UInt8) : String := String.ofList (lossyChars bytes)

/-- Reading the bytes of a text gives the text back. -/
theorem ofBytes?_toBytes (s : String) : ofBytes? (toBytes s) = some s := by
  have h : (⟨(toBytes s).toArray⟩ : ByteArray) = s.toByteArray := by
    simp [toBytes, String.toUTF8]
  simp only [ofBytes?, h, String.fromUTF8?]
  rw [dif_pos s.isValidUTF8]
  rfl

end ResourceHost.Text
