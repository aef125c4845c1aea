import ResourceHost.Proofs.Json.Grammar
import ResourceHost.Proofs.Json.Tokens

/-!
# Texts, however they are spelled

A text is read from any spelling of it, and a text that nobody wants is passed
over.
-/

namespace ResourceHost.Json

open Reader

/-! ### Escapes -/

namespace Reader

variable {scope : Scope} {rest : List UInt8}

theorem hexValue?_byte {c : Char} {x : Nat} (h : Hex.value? c = some x) :
    String.utf8EncodeChar c = [byte c] ∧ hexValue? (byte c) = some x := by
  have hascii : c.toNat < 128 := by
    have hle : ∀ d : Char, d.toNat < 128 → c ≤ d → c.toNat < 128 :=
      fun d hd hcd =>
      Nat.lt_of_le_of_lt (UInt32.le_iff_toNat_le.1 (Char.le_def.1 hcd)) hd
    rw [Hex.value?] at h
    split at h
    case isTrue hc => exact hle '9' (by decide) hc.2
    case isFalse =>
      split at h
      case isTrue hc => exact hle 'f' (by decide) hc.2
      case isFalse =>
        split at h
        case isTrue hc => exact hle 'F' (by decide) hc.2
        case isFalse => cases h
  refine ⟨Text.encodeChar_of_ascii hascii, ?_⟩
  have htoNat : (byte c).toNat = c.toNat :=
    Nat.mod_eq_of_lt (Nat.lt_trans hascii (by decide))
  rw [hexValue?, htoNat, Char.ofNat_toNat, h]

/-- Four digits are four bytes, and read as their number. -/
theorem exists_bytes_of_codeUnit {u : List Char} {n : Nat} (h : CodeUnit u n) :
    ∃ a b c d : UInt8, Text.encode u = [a, b, c, d] ∧
      ∀ rest, fourDigits (a :: b :: c :: d :: rest) = .ok n := by
  cases h with
  | digits ha hb hc hd =>
    obtain ⟨hea, hva⟩ := hexValue?_byte ha
    obtain ⟨heb, hvb⟩ := hexValue?_byte hb
    obtain ⟨hec, hvc⟩ := hexValue?_byte hc
    obtain ⟨hed, hvd⟩ := hexValue?_byte hd
    refine ⟨_, _, _, _,
      by simp only [Text.encode_cons, hea, heb, hec, hed]; rfl, fun rest => ?_⟩
    simp only [fourDigits, hva, hvb, hvc, hvd]

/-- A letter that may follow a backslash, as a byte. -/
theorem shortEscape?_byte :
    ∀ p ∈ shortEscapes, p.1.toNat < 128 ∧ p.2.toNat < 128 ∧
    (byte p.1 == byte 'u') = false ∧
    shortEscape? (byte p.1) = some p.2.toNat.toUInt8 := by
  decide

theorem unescaped_of_bare {c : Char} (hc : Bare c) :
    ∀ b ∈ String.utf8EncodeChar c, Unescaped b :=
  fun _ => unescaped_of_mem_encodeChar hc.1 hc.2.1 hc.2.2

/-! ### Texts that are wanted -/

theorem escape_code {u : List Char} {n : Nat} (hu : CodeUnit u n)
    (hn : ¬ IsHigh n ∧ ¬ IsLow n) (rest : List UInt8) :
    escape (byte 'u' :: (Text.encode u ++ rest)) =
        .ok (String.utf8EncodeChar (Char.ofNat n), 5) ∧
      (byte 'u' :: (Text.encode u ++ rest)).drop 5 = rest := by
  obtain ⟨a, b, c, d, hbytes, hfour⟩ := exists_bytes_of_codeUnit hu
  rw [hbytes]
  refine ⟨?_, rfl⟩
  rw [escape, if_pos (beq_self_eq_true _)]
  show (fourDigits (a :: b :: c :: d :: rest) >>= _) = _
  rw [hfour]
  show (if _ then _ else _ : Except Problem (List UInt8 × Nat)) = _
  rw [if_neg hn.2, if_neg hn.1]

theorem escape_pair {u u' : List Char} {n n' : Nat} (hu : CodeUnit u n)
    (hu' : CodeUnit u' n') (hn : IsHigh n) (hn' : IsLow n')
    (rest : List UInt8) :
    escape (byte 'u' :: (Text.encode u ++ byte '\\' :: byte 'u' ::
          (Text.encode u' ++ rest))) =
        .ok (String.utf8EncodeChar
          (Char.ofNat (0x10000 + (n - 0xD800) * 0x400 + (n' - 0xDC00))), 11) ∧
      (byte 'u' :: (Text.encode u ++ byte '\\' :: byte 'u' ::
          (Text.encode u' ++ rest))).drop 11 =
        rest := by
  obtain ⟨a, b, c, d, hbytes, hfour⟩ := exists_bytes_of_codeUnit hu
  obtain ⟨a', b', c', d', hbytes', hfour'⟩ := exists_bytes_of_codeUnit hu'
  rw [hbytes, hbytes']
  refine ⟨?_, rfl⟩
  have hnotLow : ¬ IsLow n :=
    fun h => absurd (Nat.le_trans h.1 hn.2) (by decide)
  have hpaired : pairedEscape n
      (byte '\\' :: byte 'u' :: a' :: b' :: c' :: d' :: rest) =
        .ok (String.utf8EncodeChar
          (Char.ofNat (0x10000 + (n - 0xD800) * 0x400 + (n' - 0xDC00)))) := by
    rw [pairedEscape, if_pos (beq_self_eq_true _)]
    show (if _ then _ else _ : Except Problem (List UInt8)) = _
    rw [if_pos (beq_self_eq_true _), hfour']
    show (if _ then _ else _ : Except Problem (List UInt8)) = _
    rw [if_pos hn']
  rw [escape, if_pos (beq_self_eq_true _)]
  show (fourDigits (a :: b :: c :: d :: _) >>= _) = _
  rw [hfour]
  show (if _ then _ else _ : Except Problem (List UInt8 × Nat)) = _
  rw [if_neg hnotLow, if_pos hn]
  show (pairedEscape n (byte '\\' :: byte 'u' :: a' :: b' :: c' :: d' ::
    rest) >>= _) = _
  rw [hpaired]
  rfl

theorem textBytes_spells {cs s : List Char} (h : Spells cs s)
    (done rest : List UInt8) :
    textBytes done (Text.encode cs ++ rest) =
      textBytes ((Text.encode s).reverse ++ done) rest := by
  induction h generalizing done with
  | nil => rfl
  | @bare c cs s hc h ih =>
    rw [Text.encode_cons, List.append_assoc,
      textBytes_unescaped (unescaped_of_bare hc), ih, Text.encode_cons,
      List.reverse_append, List.append_assoc]
  | @short e c cs s he h ih =>
    obtain ⟨hascii, hascii', hu, hshort⟩ := shortEscape?_byte _ he
    rw [encode_ascii_cons (c := '\\') (by decide), encode_ascii_cons hascii]
    show textBytes done (byte '\\' :: byte e :: (Text.encode cs ++ rest)) = _
    rw [textBytes_short hshort hu hascii', ih, Text.encode_cons,
      List.reverse_append, List.append_assoc]
  | @code u cs s n hu hn h ih =>
    obtain ⟨hescape, hdrop⟩ := escape_code hu hn (Text.encode cs ++ rest)
    rw [encode_ascii_cons (c := '\\') (by decide),
      encode_ascii_cons (c := 'u') (by decide), Text.encode_append]
    simp only [List.cons_append, List.append_assoc]
    rw [textBytes_escape hescape, hdrop, ih, Text.encode_cons,
      List.reverse_append, List.append_assoc]
  | @pair u u' cs s n n' hu hu' hn hn' h ih =>
    obtain ⟨hescape, hdrop⟩ :=
      escape_pair hu hu' hn hn' (Text.encode cs ++ rest)
    rw [encode_ascii_cons (c := '\\') (by decide),
      encode_ascii_cons (c := 'u') (by decide), Text.encode_append,
      encode_ascii_cons (c := '\\') (by decide),
      encode_ascii_cons (c := 'u') (by decide), Text.encode_append]
    simp only [List.cons_append, List.append_assoc]
    rw [textBytes_escape hescape, hdrop, ih, Text.encode_cons,
      List.reverse_append, List.append_assoc]

/-- A spelled text is read, behind its opening quote, whatever follows. -/
theorem textTail_spells {cs : List Char} {s : String} (h : Spells cs s.toList)
    (rest : List UInt8) :
    textTail scope (Text.encode cs ++ byte '"' :: rest) = .ok (s, rest) := by
  have hbytes : Text.ofBytes? (Text.encode s.toList) = some s := by
    rw [Text.encode_toList, Text.ofBytes?_toBytes]
  rw [textTail, textBytes_spells h, textBytes_quote]
  simp only [List.append_nil, List.reverse_reverse, hbytes]

/-! ### Texts as they are printed -/

theorem codeUnit_control {n : Nat} (hn : n < 0x20) :
    CodeUnit ['0', '0', Hex.digit 'a' (n / 16), Hex.digit 'a' (n % 16)] n := by
  have hdigit : ∀ m < 16, Hex.value? (Hex.digit 'a' m) = some m := by decide
  have hcode : ((0 * 16 + 0) * 16 + n / 16) * 16 + n % 16 = n := by omega
  have hunit := CodeUnit.digits (a := '0') (b := '0') (x := 0) (y := 0) rfl rfl
    (hdigit (n / 16) (by omega)) (hdigit (n % 16) (by omega))
  rwa [hcode] at hunit

theorem spells_char {cs s : List Char} (c : Char) (h : Spells cs s) :
    Spells (Print.char c ++ cs) (c :: s) := by
  fun_cases Print.char c with
  | case1 hc => subst hc; exact .short (e := '"') (by decide) h
  | case2 _ hc => subst hc; exact .short (e := '\\') (by decide) h
  | case3 _ _ hc => subst hc; exact .short (e := 'b') (by decide) h
  | case4 _ _ _ hc => subst hc; exact .short (e := 'f') (by decide) h
  | case5 _ _ _ _ hc => subst hc; exact .short (e := 'n') (by decide) h
  | case6 _ _ _ _ _ hc => subst hc; exact .short (e := 'r') (by decide) h
  | case7 _ _ _ _ _ _ hc => subst hc; exact .short (e := 't') (by decide) h
  | case8 _ _ _ _ _ _ _ hc =>
    have hspells := Spells.code (codeUnit_control hc) ⟨by omega, by omega⟩ h
    rwa [Char.ofNat_toNat] at hspells
  | case9 hquote hback _ _ _ _ _ hc => exact .bare ⟨hquote, hback, hc⟩ h

theorem spells_print (s : List Char) : Spells (s.flatMap Print.char) s := by
  induction s with
  | nil => exact .nil
  | cons c s ih => exact spells_char c ih

/-- A printed text is read, behind its opening quote, whatever follows. -/
theorem textTail_print (scope : Scope) (s : String) (rest : List UInt8) :
    textTail scope (Text.encode (s.toList.flatMap Print.char) ++
        byte '"' :: rest) =
      .ok (s, rest) :=
  textTail_spells (spells_print s.toList) rest

/-! ### Texts that nobody wants -/

theorem skipTextBytes_quote (rest : List UInt8) :
    skipTextBytes (byte '"' :: rest) = .ok rest := by
  rw [skipTextBytes.eq_def]
  rfl

theorem skipTextBytes_short {b : UInt8} {c : UInt8}
    (hb : shortEscape? b = some c) (hu : (b == byte 'u') = false)
    (rest : List UInt8) :
    skipTextBytes (byte '\\' :: b :: rest) = skipTextBytes rest := by
  rw [skipTextBytes.eq_def]
  dsimp only
  rw [if_neg (by decide), if_pos (beq_self_eq_true _), hu,
    if_neg Bool.false_ne_true, hb]
  rfl

theorem skipTextBytes_code {a b c d : UInt8} {n : Nat} {rest : List UInt8}
    (h : fourDigits (a :: b :: c :: d :: rest) = .ok n) :
    skipTextBytes (byte '\\' :: byte 'u' :: a :: b :: c :: d :: rest) =
      skipTextBytes rest := by
  rw [skipTextBytes.eq_def]
  dsimp only
  rw [if_neg (by decide), if_pos (beq_self_eq_true _),
    if_pos (beq_self_eq_true _), h]
  rfl

theorem skipTextBytes_unescaped {u : List UInt8} (hu : ∀ b ∈ u, Unescaped b)
    (rest : List UInt8) : skipTextBytes (u ++ rest) = skipTextBytes rest := by
  induction u with
  | nil => rfl
  | cons b u ih =>
    obtain ⟨hquote, hback, hcontrol⟩ := hu b List.mem_cons_self
    rw [← ih fun b' hb' => hu b' (List.mem_cons_of_mem _ hb'), List.cons_append,
      skipTextBytes.eq_def]
    dsimp only
    rw [if_neg (mt eq_of_beq hquote), if_neg (mt eq_of_beq hback),
      if_neg (Bool.eq_false_iff.1 hcontrol)]

theorem skipTextBytes_body {cs : List Char} (h : Body cs) (rest : List UInt8) :
    skipTextBytes (Text.encode cs ++ rest) = skipTextBytes rest := by
  induction h with
  | nil => rfl
  | @bare c cs hc h ih =>
    rw [Text.encode_cons, List.append_assoc,
      skipTextBytes_unescaped (unescaped_of_bare hc), ih]
  | @short e c cs he h ih =>
    obtain ⟨hascii, -, hu, hshort⟩ := shortEscape?_byte _ he
    rw [encode_ascii_cons (c := '\\') (by decide), encode_ascii_cons hascii]
    exact (skipTextBytes_short hshort hu _).trans ih
  | @code u cs n hu h ih =>
    obtain ⟨a, b, c, d, hbytes, hfour⟩ := exists_bytes_of_codeUnit hu
    rw [encode_ascii_cons (c := '\\') (by decide),
      encode_ascii_cons (c := 'u') (by decide), Text.encode_append, hbytes]
    exact (skipTextBytes_code (hfour _)).trans ih

/-- A text is passed over, behind its opening quote, with the closing one. -/
theorem skipText_body {cs : List Char} (h : Body cs) (rest : List UInt8) :
    skipText scope (Text.encode cs ++ byte '"' :: rest) = .ok ((), rest) := by
  rw [skipText, skipTextBytes_body h, skipTextBytes_quote]
  rfl

end Reader

end ResourceHost.Json
