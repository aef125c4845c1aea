import ResourceHost.Json.Printer
import ResourceHost.Proofs.Decimal.Integers

/-!
# Tokens

Inside a text, bytes stand for themselves or are escaped.  An integer is read
back from its digits.  A number has no end of its own: it is read back only
where the bytes behind it do not go on with it.
-/

namespace ResourceHost

/-! ### Bytes of characters -/

namespace Text

/-- The bytes of characters, one after another. -/
def encode (cs : List Char) : List UInt8 := cs.flatMap String.utf8EncodeChar

@[simp] theorem encode_nil : encode [] = [] := rfl

theorem encode_cons (c : Char) (cs : List Char) :
    encode (c :: cs) = String.utf8EncodeChar c ++ encode cs := rfl

theorem encode_append (cs ds : List Char) :
    encode (cs ++ ds) = encode cs ++ encode ds :=
  List.flatMap_append

theorem toBytes_ofList (cs : List Char) :
    toBytes (String.ofList cs) = encode cs := by
  simp [toBytes, encode, String.toUTF8, List.utf8Encode]

theorem encode_toList (s : String) : encode s.toList = toBytes s := by
  rw [← toBytes_ofList, String.ofList_toList]

/-- A character of ASCII is one byte. -/
theorem encodeChar_of_ascii {c : Char} (h : c.toNat < 128) :
    String.utf8EncodeChar c = [c.toNat.toUInt8] := by
  have hle : c.val.toNat ≤ 0x7f := Nat.le_of_lt_succ h
  simp only [String.utf8EncodeChar, hle, if_true]
  rfl

/-- All bytes of any other character lie beyond ASCII. -/
theorem le_toNat_of_mem_encodeChar {c : Char} (h : 128 ≤ c.toNat) {b : UInt8}
    (hb : b ∈ String.utf8EncodeChar c) : 128 ≤ b.toNat := by
  have hlt : ¬ c.val.toNat ≤ 0x7f := Nat.not_le_of_lt h
  simp only [String.utf8EncodeChar, hlt, if_false] at hb
  split at hb
  · simp only [List.mem_cons, List.not_mem_nil, or_false] at hb
    rcases hb with rfl | rfl <;> simp <;> omega
  · split at hb
    · simp only [List.mem_cons, List.not_mem_nil, or_false] at hb
      rcases hb with rfl | rfl | rfl <;> simp <;> omega
    · simp only [List.mem_cons, List.not_mem_nil, or_false] at hb
      rcases hb with rfl | rfl | rfl | rfl <;> simp <;> omega

theorem length_le_length_encode (cs : List Char) :
    cs.length ≤ (encode cs).length := by
  induction cs with
  | nil => exact Nat.le_refl 0
  | cons c cs ih =>
    have hone : 0 < (String.utf8EncodeChar c).length :=
      List.length_pos_iff.2 String.utf8EncodeChar_ne_nil
    rw [encode_cons, List.length_append, List.length_cons]
    omega

end Text

namespace Json

open Reader
open Decimal (isDigit_ascii isDigit_of_mem le_ofDigitChars)

/-! ### Texts -/

namespace Reader

theorem encode_ascii_cons {c : Char} (h : c.toNat < 128) (cs : List Char) :
    Text.encode (c :: cs) = byte c :: Text.encode cs := by
  rw [Text.encode_cons, Text.encodeChar_of_ascii h]
  rfl

/-- Bytes that stand for themselves inside a text. -/
def Unescaped (b : UInt8) : Prop :=
  b ≠ byte '"' ∧ b ≠ byte '\\' ∧ isControl b = false

theorem textBytes_quote (done rest : List UInt8) :
    textBytes done (byte '"' :: rest) = .ok (done.reverse, rest) := by
  rw [textBytes, if_pos (beq_self_eq_true _)]

theorem textBytes_unescaped {u : List UInt8} (hu : ∀ b ∈ u, Unescaped b)
    (done rest : List UInt8) :
    textBytes done (u ++ rest) = textBytes (u.reverse ++ done) rest := by
  induction u generalizing done with
  | nil => rfl
  | cons b u ih =>
    obtain ⟨hquote, hback, hcontrol⟩ := hu b List.mem_cons_self
    have hstep : textBytes done (b :: (u ++ rest)) =
        textBytes (b :: done) (u ++ rest) := by
      rw [textBytes, if_neg (mt eq_of_beq hquote), if_neg (mt eq_of_beq hback),
        if_neg (Bool.eq_false_iff.1 hcontrol)]
    rw [List.cons_append, hstep,
      ih fun b' hb' => hu b' (List.mem_cons_of_mem _ hb')]
    simp

theorem textBytes_escape {bytes e : List UInt8} {n : Nat}
    (he : escape e = .ok (bytes, n)) (done : List UInt8) :
    textBytes done (byte '\\' :: e) =
      textBytes (bytes.reverse ++ done) (e.drop n) := by
  rw [textBytes, if_neg (by decide), if_pos (beq_self_eq_true _), he]

/-- A character that has an escape of one letter. -/
theorem textBytes_short {b : UInt8} {c : Char}
    (hb : shortEscape? b = some c.toNat.toUInt8) (hu : (b == byte 'u') = false)
    (hc : c.toNat < 128) (done rest : List UInt8) :
    textBytes done (byte '\\' :: b :: rest) =
      textBytes ((String.utf8EncodeChar c).reverse ++ done) rest := by
  have he : escape (b :: rest) = .ok ([c.toNat.toUInt8], 1) := by
    rw [escape, hu, if_neg Bool.false_ne_true, hb]
  rw [Text.encodeChar_of_ascii hc]
  exact textBytes_escape he done

theorem unescaped_of_ge {b : UInt8} (hb : 0x20 ≤ b.toNat)
    (hquote : b.toNat ≠ '"'.toNat) (hback : b.toNat ≠ '\\'.toNat) :
    Unescaped b := by
  refine ⟨fun h => hquote (by rw [h]; rfl), fun h => hback (by rw [h]; rfl), ?_⟩
  rw [isControl, decide_eq_false_iff_not, UInt8.lt_iff_toNat_lt]
  exact Nat.not_lt_of_le hb

/-- All bytes of a character that is not escaped stand for themselves. -/
theorem unescaped_of_mem_encodeChar {c : Char} (hquote : c ≠ '"')
    (hback : c ≠ '\\') (hc : ¬ c.toNat < 0x20) {b : UInt8}
    (hb : b ∈ String.utf8EncodeChar c) : Unescaped b := by
  by_cases hascii : c.toNat < 128
  · rw [Text.encodeChar_of_ascii hascii, List.mem_singleton] at hb
    have htoNat : b.toNat = c.toNat := by
      rw [hb]
      exact Nat.mod_eq_of_lt (Nat.lt_trans hascii (by decide))
    refine unescaped_of_ge (by omega) ?_ ?_
    · rw [htoNat]
      exact fun h => hquote (Char.toNat_inj.1 h)
    · rw [htoNat]
      exact fun h => hback (Char.toNat_inj.1 h)
  · have hge := Text.le_toNat_of_mem_encodeChar (Nat.le_of_not_lt hascii) hb
    refine unescaped_of_ge (by omega) ?_ ?_
    · show b.toNat ≠ 34
      omega
    · show b.toNat ≠ 92
      omega

/-! ### One reader after another -/

variable {α β : Type} {scope : Scope} {s rest : List UInt8}

theorem bind_of_ok {r : Reader α} {a : α} (h : r scope s = .ok (a, rest))
    (f : α → Reader β) : (r >>= f) scope s = f a scope rest := by
  show andThen r f scope s = _
  rw [andThen, h]

theorem exists_of_bind_ok {r : Reader α} {f : α → Reader β} {b : β}
    (h : (r >>= f) scope s = .ok (b, rest)) :
    ∃ a s', r scope s = .ok (a, s') ∧ f a scope s' = .ok (b, rest) := by
  change andThen r f scope s = _ at h
  rw [andThen] at h
  split at h
  case h_1 a s' ha => exact ⟨a, s', ha, h⟩
  case h_2 => cases h

theorem exists_of_run_ok {r : Reader α} {a : α} (h : run r s = .ok a) :
    ∃ rest, r ⟨s.length + 1, maxDepth⟩ s = .ok (a, rest) := by
  rw [run] at h
  split at h
  case h_1 => cases h
  case h_2 a' rest ha =>
    split at h
    · exact ⟨rest, Except.ok.inj h ▸ ha⟩
    · cases h

/-- What is made of a whole text that is read. -/
theorem run_map_of_ok {r : Reader α} {a : α} (h : run r s = .ok a) (f : α → β) :
    run (do return f (← r)) s = .ok (f a) := by
  rw [run] at h ⊢
  cases hr : r ⟨s.length + 1, maxDepth⟩ s with
  | error p =>
    rw [hr] at h
    cases h
  | ok read =>
    obtain ⟨a', rest⟩ := read
    rw [hr] at h
    rw [bind_of_ok hr]
    dsimp only at h
    split at h
    case isTrue hrest =>
      cases h
      exact if_pos hrest
    case isFalse => cases h

/-! ### Where a number ends -/

/-- A byte that a number cannot go on with. -/
abbrev EndsNumber (b : UInt8) : Prop :=
  isDigit b = false ∧ b ≠ byte '.' ∧ b ≠ byte 'e' ∧ b ≠ byte 'E'

/-- The bytes do not go on with a number. -/
def Apart (rest : List UInt8) : Prop := ∀ b, rest.head? = some b → EndsNumber b

theorem apart_nil : Apart [] := nofun

theorem apart_cons {b : UInt8} (h : EndsNumber b) (s : List UInt8) :
    Apart (b :: s) :=
  fun _ hb => Option.some.inj hb ▸ h

theorem pointMark_of_apart (h : Apart rest) :
    pointMark scope rest = .ok (false, rest) := by
  rw [pointMark, bind_of_ok (a := rest.head?) rfl]
  cases hb : rest.head? with
  | none => rfl
  | some b =>
    dsimp only
    rw [if_neg (mt eq_of_beq (h b hb).2.1)]
    rfl

theorem exponentMark_of_apart (h : Apart rest) :
    exponentMark scope rest = .ok (false, rest) := by
  rw [exponentMark, bind_of_ok (a := rest.head?) rfl]
  cases hb : rest.head? with
  | none => rfl
  | some b =>
    obtain ⟨-, -, hlower, hupper⟩ := h b hb
    have hmark : ¬ (b == byte 'e' || b == byte 'E') = true := by
      rw [Bool.or_eq_true]
      exact fun he => he.elim (mt eq_of_beq hlower) (mt eq_of_beq hupper)
    dsimp only
    rw [if_neg hmark]
    rfl

/-! ### Digits -/

theorem toNat_lt_of_isDigit {c : Char} (h : c.isDigit) : c.toNat < 128 :=
  Nat.lt_of_le_of_lt (isDigit_ascii h).2 (by decide)

theorem toNat_byte {c : Char} (h : c.isDigit) : (byte c).toNat = c.toNat :=
  Nat.mod_eq_of_lt (Nat.lt_trans (toNat_lt_of_isDigit h) (by decide))

theorem isDigit_byte {c : Char} (h : c.isDigit) : isDigit (byte c) = true := by
  obtain ⟨hlow, hhigh⟩ := isDigit_ascii h
  have hrange : byte '0' ≤ byte c ∧ byte c ≤ byte '9' := by
    rw [UInt8.le_iff_toNat_le, UInt8.le_iff_toNat_le, toNat_byte h]
    exact ⟨hlow, hhigh⟩
  rw [isDigit, digit?, if_pos hrange]
  rfl

theorem encode_of_isDigit {cs : List Char} (h : ∀ c ∈ cs, c.isDigit) :
    Text.encode cs = cs.map byte := by
  induction cs with
  | nil => rfl
  | cons c cs ih =>
    rw [encode_ascii_cons (toNat_lt_of_isDigit (h c List.mem_cons_self)),
      ih fun d hd => h d (List.mem_cons_of_mem c hd)]
    rfl

/-- The bytes do not go on with digits. -/
def Halts (rest : List UInt8) : Prop :=
  ∀ b, rest.head? = some b → isDigit b = false

theorem Apart.halts (h : Apart rest) : Halts rest := fun b hb => (h b hb).1

theorem halts_cons {b : UInt8} (h : isDigit b = false) (s : List UInt8) :
    Halts (b :: s) :=
  fun _ hb => Option.some.inj hb ▸ h

/-- Digits are taken up to where they end. -/
theorem digits_of_halts {ds : List UInt8} (hds : ∀ b ∈ ds, isDigit b = true)
    (hrest : Halts rest) : digits scope (ds ++ rest) = .ok (ds, rest) := by
  have hstop : rest.takeWhile isDigit = [] ∧ rest.dropWhile isDigit = rest := by
    cases rest with
    | nil => exact ⟨rfl, rfl⟩
    | cons b rest =>
      have hb : ¬ isDigit b = true := Bool.eq_false_iff.1 (hrest b rfl)
      exact ⟨List.takeWhile_cons_of_neg hb, List.dropWhile_cons_of_neg hb⟩
  rw [digits, List.takeWhile_append_of_pos hds,
    List.dropWhile_append_of_pos hds, hstop.1, hstop.2, List.append_nil]

/-- Digits are appended to a significand as long as their number fits. -/
theorem absorb_digits {cs : List Char} (h : ∀ c ∈ cs, c.isDigit) {m : Nat}
    (hmax : Nat.ofDigitChars 10 cs m ≤ maxSignificand) :
    absorb m (cs.map byte) = (Nat.ofDigitChars 10 cs m, 0) := by
  induction cs generalizing m with
  | nil => rfl
  | cons c cs ih =>
    have hvalue : m * 10 + ((byte c).toNat - 48) =
        10 * m + (c.toNat - '0'.toNat) := by
      rw [toNat_byte (h c List.mem_cons_self), Nat.mul_comm]
      rfl
    rw [Nat.ofDigitChars_cons] at hmax ⊢
    have hfits := Nat.le_trans (le_ofDigitChars cs _) hmax
    rw [List.map_cons, absorb, hvalue]
    simp only [if_pos hfits]
    exact ih (fun d hd => h d (List.mem_cons_of_mem c hd)) hmax

/-! ### Numbers as they are printed -/

/-- The printed digits of a number as bytes. -/
def digitBytes (n : Nat) : List UInt8 := (Nat.toDigits 10 n).map byte

theorem encode_toDigits (n : Nat) :
    Text.encode (Nat.toDigits 10 n) = digitBytes n :=
  encode_of_isDigit fun _ => isDigit_of_mem

theorem digitBytes_ne_nil (n : Nat) : digitBytes n ≠ [] :=
  mt List.map_eq_nil_iff.1 Nat.toDigits_ne_nil

theorem isDigit_of_mem_digitBytes {n : Nat} {b : UInt8} (h : b ∈ digitBytes n) :
    isDigit b = true := by
  obtain ⟨c, hc, rfl⟩ := List.mem_map.1 h
  exact isDigit_byte (isDigit_of_mem hc)

theorem exists_digitBytes_eq (n : Nat) :
    ∃ b ds, digitBytes n = b :: ds ∧ isDigit b = true := by
  obtain ⟨b, ds, hcons⟩ := List.exists_cons_of_ne_nil (digitBytes_ne_nil n)
  exact ⟨b, ds, hcons,
    isDigit_of_mem_digitBytes (n := n)
      (by rw [hcons]; exact List.mem_cons_self)⟩

/-- No printed number but zero begins with a zero. -/
theorem head?_digitBytes {n : Nat} (hn : 0 < n) :
    (digitBytes n).head? ≠ some (byte '0') := by
  induction n using Nat.strongRecOn with
  | ind n ih =>
    by_cases hsmall : n < 10
    · have hall : ∀ m < 10, 0 < m → byte m.digitChar ≠ byte '0' := by decide
      rw [digitBytes, Nat.toDigits_of_lt_base hsmall]
      exact fun h => hall n hsmall hn (Option.some.inj h)
    · have hfront : digitBytes n =
          digitBytes (n / 10) ++ [byte (n % 10).digitChar] := by
        rw [digitBytes,
          Nat.toDigits_of_base_le (by decide) (Nat.le_of_not_lt hsmall),
          List.map_append]
        rfl
      have hhead : (digitBytes n).head? = (digitBytes (n / 10)).head? := by
        rw [hfront, List.head?_append,
          List.head?_eq_some_head (digitBytes_ne_nil _)]
        rfl
      rw [hhead]
      exact ih (n / 10) (by omega) (by omega)

theorem wholeDigits_print (hrest : Apart rest) (n : Nat) :
    wholeDigits scope (digitBytes n ++ rest) = .ok (digitBytes n, rest) := by
  have hsome : someDigits scope (digitBytes n ++ rest) =
      .ok (digitBytes n, rest) := by
    rw [someDigits,
      bind_of_ok (digits_of_halts (fun _ => isDigit_of_mem_digitBytes)
        hrest.halts)]
    have hempty : (digitBytes n).isEmpty = false := by
      simpa using digitBytes_ne_nil n
    show (if (digitBytes n).isEmpty then _ else _ : Reader (List UInt8))
      scope rest = _
    rw [hempty]
    rfl
  have hzero : ¬ ((digitBytes n).head? ==
      some (byte '0') && (digitBytes n).length > 1) = true := by
    rw [Bool.and_eq_true]
    rintro ⟨hhead, hlong⟩
    cases Nat.eq_zero_or_pos n with
    | inl hn => subst hn; exact absurd hlong (by decide)
    | inr hn => exact head?_digitBytes hn (eq_of_beq hhead)
  rw [wholeDigits, bind_of_ok hsome, if_neg hzero]
  rfl

theorem absorb_digitBytes {n : Nat} (hn : n ≤ maxSignificand) :
    absorb 0 (digitBytes n) = (n, 0) := by
  have hvalue : Nat.ofDigitChars 10 (Nat.toDigits 10 n) 0 = n :=
    Nat.ofDigitChars_ten_toDigits
  rw [digitBytes, absorb_digits (fun _ => isDigit_of_mem) (by rwa [hvalue]),
    hvalue]

/-- What is left of a number after its digits when it has neither point nor
exponent. -/
theorem number_print {n : Nat} (hn : n ≤ maxSignificand) (hrest : Apart rest)
    (negative : Bool) :
    number negative scope (digitBytes n ++ rest) =
      (if !negative then pure (.natural n)
        else if n == 0 then pure (.real (-0.0))
        else if n ≤ 9223372036854775808 then pure (.negative n)
        else pure (.real (-(UInt64.ofNat n).toFloat)) :
          Reader Number) scope rest := by
  rw [number, bind_of_ok (wholeDigits_print hrest n)]
  simp only [absorb_digitBytes hn]
  rw [bind_of_ok (pointMark_of_apart hrest), if_neg Bool.false_ne_true,
    bind_of_ok (exponentMark_of_apart hrest), if_neg Bool.false_ne_true,
    if_neg (Nat.lt_irrefl 0)]

end Reader

end Json

end ResourceHost
