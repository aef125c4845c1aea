import ResourceHost.Proofs.Id.BuildNames
import ResourceHost.Proofs.Id.Order

/-!
# The order of build names

The digits of a numeral ascend with their values, and numerals of one width are
compared digit by digit from the left.  So numerals come in the order of their
numbers, and build names, type before name, in the order of their handles.
-/

namespace ResourceHost

namespace Hex

/-- The digits of a numeral, in ascending order. -/
def upperDigits : List Char := "0123456789ABCDEF".toList

theorem digit_mem_upperDigits : ∀ n < 16, digit 'A' n ∈ upperDigits := by decide

theorem mem_upperDigits_of_mem_upper {width n : Nat} {c : Char}
    (hc : c ∈ upper width n) : c ∈ upperDigits := by
  induction width generalizing n with
  | zero => cases hc
  | succ width ih =>
    rcases List.mem_append.1 hc with hc | hc
    · exact ih hc
    · rw [List.mem_singleton.1 hc]
      exact digit_mem_upperDigits _ (Nat.mod_lt n (by decide))

theorem digit_lt_digit_iff :
    ∀ n < 16, ∀ m < 16, digit 'A' n < digit 'A' m ↔ n < m := by decide

/-- Texts of which the first parts are equally long: the second parts count only
if the first ones are the same. -/
theorem append_lt_append_iff {xs xs' ys ys' : List Char}
    (h : xs.length = xs'.length) :
    xs ++ ys < xs' ++ ys' ↔ xs < xs' ∨ xs = xs' ∧ ys < ys' := by
  induction xs generalizing xs' with
  | nil =>
    cases List.length_eq_zero_iff.1 h.symm
    simp
  | cons x xs ih =>
    cases xs' with
    | nil => cases h
    | cons x' xs' =>
      rw [List.cons_append, List.cons_append, List.cons_lt_cons_iff,
        List.cons_lt_cons_iff, ih (Nat.succ.inj h), List.cons.injEq]
      grind

theorem upper_inj {width n m : Nat} (hn : n < Nat.pow 16 width)
    (hm : m < Nat.pow 16 width) (h : upper width n = upper width m) :
    n = m := by
  have hnumber : n % Nat.pow 16 width = m % Nat.pow 16 width := by
    rw [← number_upper, ← number_upper, h]
  rwa [Nat.mod_eq_of_lt hn, Nat.mod_eq_of_lt hm] at hnumber

/-- Numerals of one width come in the order of their numbers. -/
theorem upper_lt_upper_iff {width n m : Nat} (hn : n < Nat.pow 16 width)
    (hm : m < Nat.pow 16 width) : upper width n < upper width m ↔ n < m := by
  induction width generalizing n m with
  | zero =>
    rw [Nat.lt_one_iff.1 hn, Nat.lt_one_iff.1 hm]
    exact iff_of_false (List.lt_irrefl _) (Nat.lt_irrefl 0)
  | succ width ih =>
    have hn' : n / 16 < Nat.pow 16 width :=
      Nat.div_lt_of_lt_mul (Nat.mul_comm _ _ ▸ hn)
    have hm' : m / 16 < Nat.pow 16 width :=
      Nat.div_lt_of_lt_mul (Nat.mul_comm _ _ ▸ hm)
    have hlength : (upper width (n / 16)).length =
        (upper width (m / 16)).length := by
      rw [length_upper, length_upper]
    have hlast : [digit 'A' (n % 16)] < [digit 'A' (m % 16)] ↔
        n % 16 < m % 16 := by
      rw [List.cons_lt_cons_iff,
        digit_lt_digit_iff _ (Nat.mod_lt n (by decide)) _
          (Nat.mod_lt m (by decide))]
      simp
    have hfirst : upper width (n / 16) = upper width (m / 16) ↔
        n / 16 = m / 16 :=
      ⟨upper_inj hn' hm', fun h => h ▸ rfl⟩
    rw [upper, upper, append_lt_append_iff hlength, ih hn' hm', hfirst, hlast]
    omega

end Hex

/-- The digits of identifiers come in the order of the identifiers. -/
theorem Id.digits_lt_digits_iff {r : Realm} {a b : Id r} :
    a.digits < b.digits ↔ a.raw < b.raw := by
  rw [Id.digits, Id.digits,
    Hex.upper_lt_upper_iff a.raw.toNat_lt b.raw.toNat_lt,
    UInt64.lt_iff_toNat_lt]

namespace Handle

theorem buildDigits_lt_iff {a b : Handle} :
    a.buildDigits < b.buildDigits ↔ a < b := by
  have hlength : a.type.digits.length = b.type.digits.length := by
    rw [Id.length_digits, Id.length_digits]
  have htype : a.type.digits = b.type.digits ↔ a.type.raw = b.type.raw := by
    rw [Id.digits_injective.eq_iff, Id.mk.injEq]
  rw [buildDigits, buildDigits, Hex.append_lt_append_iff hlength,
    Id.digits_lt_digits_iff, htype, Id.digits_lt_digits_iff]
  exact Iff.rfl

/-- A build name has 32 characters, all of them upper-case hexadecimal digits;
its halves are the numbers of the two identifiers, so it tells its handle; and
build names come in the order of their handles. -/
theorem buildName_ordered_encoding :
    (∀ h : Handle, h.buildName.length = 32 ∧
      (∀ c ∈ h.buildName.toList, c ∈ Hex.upperDigits) ∧
      Hex.number (h.buildName.toList.take 16) = h.type.raw.toNat ∧
      Hex.number (h.buildName.toList.drop 16) = h.name.raw.toNat) ∧
    Function.Injective buildName ∧
    ∀ a b : Handle, a < b ↔ a.buildName < b.buildName := by
  refine ⟨fun h => ?_, buildName_injective, fun a b => ?_⟩
  · have htoList : h.buildName.toList = h.type.digits ++ h.name.digits :=
      String.toList_ofList
    refine ⟨?_, ?_, ?_, ?_⟩
    · rw [buildName, String.length_ofList, length_buildDigits]
    · rw [htoList]
      intro c hc
      exact (List.mem_append.1 hc).elim Hex.mem_upperDigits_of_mem_upper
        Hex.mem_upperDigits_of_mem_upper
    · rw [htoList, List.take_left' h.type.length_digits, Id.number_digits]
    · rw [htoList, List.drop_left' h.type.length_digits, Id.number_digits]
  · rw [← buildDigits_lt_iff]
    show a.buildDigits < b.buildDigits ↔ a.buildName.toList < b.buildName.toList
    rw [buildName, buildName, String.toList_ofList, String.toList_ofList]

end Handle

end ResourceHost
