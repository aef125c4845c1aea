import ResourceHost.Id

/-!
# Build names

A numeral of fixed width can be read back, up to the numbers that need more
digits.  So sixteen digits tell an identifier, and a build name tells its
handle: no two handles have one build name.
-/

namespace ResourceHost

namespace Hex

/-- The number that digits write. -/
def number (digits : List Char) : Nat :=
  digits.foldl (fun n c => 16 * n + (value? c).getD 0) 0

/-- A digit tells its value. -/
theorem value?_digit {n : Nat} (h : n < 16) :
    value? (digit 'A' n) = some n := by
  have hall : ∀ n < 16, value? (digit 'A' n) = some n := by decide
  exact hall n h

/-- A numeral is read back as the number, less what its width cuts off. -/
theorem number_upper (width n : Nat) :
    number (upper width n) = n % Nat.pow 16 width := by
  induction width generalizing n with
  | zero => exact (Nat.mod_one n).symm
  | succ width ih =>
    have hpow : Nat.pow 16 (width + 1) = 16 * Nat.pow 16 width :=
      Nat.mul_comm _ _
    have hlast : number (upper (width + 1) n) =
        16 * number (upper width (n / 16)) +
          (value? (digit 'A' (n % 16))).getD 0 := by
      simp [number, upper]
    rw [hlast, ih, value?_digit (Nat.mod_lt n (by decide)), hpow, Nat.mod_mul,
      Nat.add_comm]
    rfl

/-- A numeral has nothing but digits. -/
theorem isSome_value?_of_mem_upper {width n : Nat} {c : Char}
    (hc : c ∈ upper width n) : (value? c).isSome := by
  induction width generalizing n with
  | zero => cases hc
  | succ width ih =>
    rcases List.mem_append.1 hc with hc | hc
    · exact ih hc
    · rw [List.mem_singleton.1 hc, value?_digit (Nat.mod_lt n (by decide))]
      rfl

end Hex

/-- The digits of an identifier are read back as the identifier. -/
theorem Id.number_digits {r : Realm} (i : Id r) :
    Hex.number i.digits = i.raw.toNat := by
  rw [Id.digits, Hex.number_upper]
  exact Nat.mod_eq_of_lt i.raw.toNat_lt

theorem Id.digits_injective {r : Realm} :
    Function.Injective (Id.digits (r := r)) := by
  intro a b h
  have hnumber : a.raw.toNat = b.raw.toNat := by
    rw [← Id.number_digits, ← Id.number_digits, h]
  obtain ⟨a⟩ := a
  obtain ⟨b⟩ := b
  exact congrArg Id.mk (UInt64.toNat_inj.1 hnumber)

namespace Handle

theorem buildDigits_injective : Function.Injective buildDigits := by
  intro h h' heq
  have hlength : h.type.digits.length = h'.type.digits.length := by
    rw [Id.length_digits, Id.length_digits]
  obtain ⟨htype, hname⟩ := List.append_inj heq hlength
  obtain ⟨type, name⟩ := h
  obtain ⟨type', name'⟩ := h'
  cases Id.digits_injective htype
  cases Id.digits_injective hname
  rfl

/-- No two handles have one build name. -/
theorem buildName_injective : Function.Injective buildName :=
  fun _ _ h => buildDigits_injective (String.ofList_injective h)

/-- A build name has nothing but digits. -/
theorem isSome_value?_of_mem_buildName {h : Handle} {c : Char}
    (hc : c ∈ h.buildName.toList) : (Hex.value? c).isSome := by
  rw [buildName, String.toList_ofList] at hc
  rcases List.mem_append.1 hc with hc | hc
  · exact Hex.isSome_value?_of_mem_upper hc
  · exact Hex.isSome_value?_of_mem_upper hc

/-- What is no digit is not in a build name. -/
theorem not_mem_buildName {c : Char} (hc : Hex.value? c = none) (h : Handle) :
    c ∉ h.buildName.toList := by
  intro hmem
  have hsome := isSome_value?_of_mem_buildName hmem
  rw [hc] at hsome
  cases hsome

end Handle

end ResourceHost
