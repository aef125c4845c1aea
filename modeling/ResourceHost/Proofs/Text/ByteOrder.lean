import ResourceHost.Proofs.Json.Sorted
import ResourceHost.Proofs.Json.Tokens

/-!
# The order of texts and of their bytes

Texts are compared by the code points of their characters.  Their bytes come in
the same order: a greater code point has greater bytes, and no code begins
another one.
-/

namespace ResourceHost.Text

theorem toNat_lt_of_char (c : Char) : c.toNat < 0x110000 := by
  have hvalid := c.valid
  simp only [UInt32.isValidChar, Nat.isValidChar] at hvalid
  show c.val.toNat < _
  omega

/-- The bytes of a code point: how many there are depends on its size, and all
but the first have six bits of it. -/
inductive Encodes (n : Nat) : List UInt8 → Prop where
  | one (high : n < 0x80) : Encodes n [UInt8.ofNat n]
  | two (low : 0x80 ≤ n) (high : n < 0x800) :
    Encodes n [UInt8.ofNat (n / 64 + 192), UInt8.ofNat (n % 64 + 128)]
  | three (low : 0x800 ≤ n) (high : n < 0x10000) :
    Encodes n [UInt8.ofNat (n / 4096 + 224), UInt8.ofNat (n / 64 % 64 + 128),
      UInt8.ofNat (n % 64 + 128)]
  | four (low : 0x10000 ≤ n) (high : n < 0x110000) :
    Encodes n [UInt8.ofNat (n / 262144 + 240),
      UInt8.ofNat (n / 4096 % 64 + 128), UInt8.ofNat (n / 64 % 64 + 128),
      UInt8.ofNat (n % 64 + 128)]

theorem encodes_char (c : Char) :
    Encodes c.toNat (String.utf8EncodeChar c) := by
  have hmax := toNat_lt_of_char c
  simp only [String.utf8EncodeChar, ← Char.toNat.eq_1]
  split
  case isTrue hone => exact .one (by omega)
  case isFalse hone =>
    split
    case isTrue htwo =>
      rw [Nat.mod_eq_of_lt (by omega : c.toNat / 64 < 32)]
      exact .two (by omega) (by omega)
    case isFalse htwo =>
      split
      case isTrue hthree =>
        rw [Nat.mod_eq_of_lt (by omega : c.toNat / 4096 < 16)]
        exact .three (by omega) (by omega)
      case isFalse hthree =>
        rw [Nat.mod_eq_of_lt (by omega : c.toNat / 262144 < 8)]
        exact .four (by omega) (by omega)

/-- Of two code points the greater has the greater bytes, whatever comes behind
them. -/
theorem Encodes.append_lt {n m : Nat} {u v : List UInt8} (h : Encodes n u)
    (h' : Encodes m v) (hlt : n < m) (s t : List UInt8) : u ++ s < v ++ t := by
  -- A longer code begins with a greater byte.  In codes of one length the first
  -- bytes that differ are those where the numbers do.
  cases h <;> cases h' <;>
    simp (disch := omega) only [List.cons_append, List.cons_lt_cons_iff,
      UInt8.lt_iff_toNat_lt, ← UInt8.toNat_inj, UInt8.toNat_ofNat',
      Nat.mod_eq_of_lt] <;>
    omega

theorem encode_lt_encode {cs ds : List Char} (h : cs < ds) :
    encode cs < encode ds := by
  induction h with
  | @nil d ds =>
    obtain ⟨b, bytes, hbytes⟩ :=
      List.exists_cons_of_ne_nil (String.utf8EncodeChar_ne_nil (c := d))
    rw [encode_cons, hbytes]
    exact List.nil_lt_cons b _
  | @rel c cs d ds h => exact (encodes_char c).append_lt (encodes_char d) h _ _
  | cons h ih => exact List.append_left_lt ih

theorem toBytes_lt_toBytes {s t : String} (h : s < t) :
    toBytes s < toBytes t := by
  rw [← encode_toList, ← encode_toList]
  exact encode_lt_encode (String.lt_iff.1 h)

/-- Texts come in the order of their bytes. -/
theorem toBytes_lt_iff {s t : String} : toBytes s < toBytes t ↔ s < t := by
  refine ⟨fun h => Decidable.byContradiction fun hnot => ?_, toBytes_lt_toBytes⟩
  by_cases heq : s = t
  · rw [heq] at h
    exact List.lt_irrefl _ h
  · exact List.lt_asymm h
      (toBytes_lt_toBytes (Sorted.lt_of_not_lt_of_ne hnot heq))

end ResourceHost.Text
