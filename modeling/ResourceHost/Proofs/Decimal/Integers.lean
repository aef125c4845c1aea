import ResourceHost.Decimal.Integer

/-!
# Integers, printed and read

An integer is read back from its decimal digits as long as it lies in the range
that is read.
-/

namespace ResourceHost.Decimal

variable {c : Char} {cs : List Char} {max n : Nat} {beyond : IntegerProblem}

/-! ### Digits -/

theorem isDigit_ascii (h : c.isDigit) : 48 ≤ c.toNat ∧ c.toNat ≤ 57 := by
  simpa [Char.isDigit, UInt32.le_iff_toNat_le] using h

theorem isDigit_of_mem (h : c ∈ Nat.toDigits 10 n) : c.isDigit :=
  Nat.isDigit_of_mem_toDigits (by decide) (by decide) h

theorem le_ofDigitChars (cs : List Char) (m : Nat) :
    m ≤ Nat.ofDigitChars 10 cs m := by
  induction cs generalizing m with
  | nil => exact Nat.le_refl m
  | cons c cs ih =>
    rw [Nat.ofDigitChars_cons]
    exact Nat.le_trans (by omega) (ih _)

theorem digit?_of_isDigit (h : c.isDigit) : digit? c = some (c.toNat - 48) := by
  obtain ⟨hlow, hhigh⟩ := isDigit_ascii h
  have hrange : '0' ≤ c ∧ c ≤ '9' := by
    rw [Char.le_def, Char.le_def, UInt32.le_iff_toNat_le,
      UInt32.le_iff_toNat_le]
    exact ⟨hlow, hhigh⟩
  rw [digit?, if_pos hrange]

/-! ### Reading digits -/

/-- Digits are appended as long as their number fits. -/
theorem appendDigits_of_le (h : ∀ c ∈ cs, c.isDigit)
    (hmax : Nat.ofDigitChars 10 cs n ≤ max) :
    appendDigits max beyond n cs = .ok (Nat.ofDigitChars 10 cs n) := by
  induction cs generalizing n with
  | nil => simp [appendDigits]
  | cons c cs ih =>
    have hvalue : n * 10 + (c.toNat - 48) = 10 * n + (c.toNat - '0'.toNat) := by
      rw [Nat.mul_comm]
      rfl
    rw [Nat.ofDigitChars_cons] at hmax ⊢
    have hfits := Nat.le_trans (le_ofDigitChars cs _) hmax
    rw [appendDigits, digit?_of_isDigit (h c List.mem_cons_self)]
    simp only [hvalue, if_pos hfits]
    exact ih (fun d hd => h d (List.mem_cons_of_mem c hd)) hmax

theorem readDigits_toDigits (h : n ≤ max) :
    readDigits max beyond (Nat.toDigits 10 n) = .ok n := by
  have hvalue : Nat.ofDigitChars 10 (Nat.toDigits 10 n) 0 = n :=
    Nat.ofDigitChars_ten_toDigits
  have hread : appendDigits max beyond 0 (Nat.toDigits 10 n) = .ok n := by
    rw [appendDigits_of_le (fun _ => isDigit_of_mem) (by omega), hvalue]
  obtain ⟨c, cs, hcons⟩ :=
    List.exists_cons_of_ne_nil (Nat.toDigits_ne_nil (n := n) (b := 10))
  rw [hcons] at hread ⊢
  exact hread

/-- What begins with a digit has no sign. -/
theorem readInteger_of_isDigit (h : c.isDigit) (low high : Nat) :
    readInteger low high (c :: cs) =
      (readDigits high .tooLarge (c :: cs)).map fun n => (n : Int) := by
  have hminus : c ≠ '-' := by
    rintro rfl
    cases h
  have hplus : c ≠ '+' := by
    rintro rfl
    cases h
  unfold readInteger
  split <;> simp_all

theorem ofInt_ne_empty (n : Int) : ofInt n ≠ "" := by
  cases n with
  | ofNat n => simp [ofInt, ofNat]
  | negSucc n => simp [ofInt]

theorem readInteger_ofInt {low high : Nat} {n : Int} (hlow : -(low : Int) ≤ n)
    (hhigh : n ≤ high) : readInteger low high (ofInt n).toList = .ok n := by
  cases n with
  | ofNat n =>
    have hle : n ≤ high := Int.ofNat_le.1 hhigh
    obtain ⟨c, cs, hcons⟩ :=
      List.exists_cons_of_ne_nil (Nat.toDigits_ne_nil (n := n) (b := 10))
    have hdigit : c.isDigit := isDigit_of_mem (hcons ▸ List.mem_cons_self)
    rw [ofInt, ofNat, String.toList_ofList, hcons,
      readInteger_of_isDigit hdigit, ← hcons, readDigits_toDigits hle]
    rfl
  | negSucc n =>
    have hle : n + 1 ≤ low := by omega
    have hsign : (ofInt (.negSucc n)).toList =
        '-' :: Nat.toDigits 10 (n + 1) := by
      simp [ofInt, ofNat]
    rw [hsign, readInteger, readDigits_toDigits hle]
    rfl

/-- Every 64-bit integer is read back from its digits. -/
theorem readInt64?_ofInt (n : Int64) : readInt64? (ofInt n.toInt) = some n := by
  have hlow := n.le_toInt
  have hhigh := n.toInt_lt
  rw [readInt64?, readInteger_ofInt (by omega) (by omega)]
  simp

end ResourceHost.Decimal
