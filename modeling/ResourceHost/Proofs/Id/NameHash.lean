import ResourceHost.Id

/-!
# Names with different hashes

Each step of the hash can be undone: the factor is odd, so it has an inverse
modulo `2 ^ 64`, and the byte is mixed in by an exclusive or.  Hence no byte
that follows brings together two hashes that have come apart, and names that
differ in one byte have different hashes.
-/

namespace ResourceHost

namespace NameHash

variable {h h' x y : UInt64} {b c : UInt8}

/-- The inverse of the factor modulo `2 ^ 64`. -/
def inverse : UInt64 := 0xce965057aff6957b

theorem factor_mul_inverse : factor * inverse = 1 := by decide

/-- Multiplying by the factor can be undone. -/
theorem mul_factor_mul_inverse (x : UInt64) : x * factor * inverse = x := by
  rw [UInt64.mul_assoc, factor_mul_inverse, UInt64.mul_one]

theorem mul_factor_inj : x * factor = y * factor ↔ x = y := by
  constructor
  · intro heq
    calc x = x * factor * inverse := (mul_factor_mul_inverse x).symm
      _ = y * factor * inverse := by rw [heq]
      _ = y := mul_factor_mul_inverse y
  · rintro rfl
    rfl

/-- A step forgets nothing of what was hashed before it. -/
theorem step_left_inj : step h b = step h' b ↔ h = h' := by
  rw [step, step, mul_factor_inj, UInt64.xor_left_inj]

/-- A step forgets nothing of the byte that it takes in. -/
theorem step_right_inj : step h b = step h c ↔ b = c := by
  rw [step, step, mul_factor_inj, UInt64.xor_right_inj, UInt8.toUInt64_inj]

-- By induction on the bytes that follow; each of them keeps apart what was
-- apart before it.
theorem foldl_step_inj (bytes : List UInt8) :
    bytes.foldl step h = bytes.foldl step h' ↔ h = h' := by
  induction bytes generalizing h h' with
  | nil => rfl
  | cons b bytes ih => rw [List.foldl_cons, List.foldl_cons, ih, step_left_inj]

/-- Byte strings that may differ in one byte have one hash exactly if they do
not differ. -/
theorem ofBytes_append_cons_inj (u v : List UInt8) :
    ofBytes (u ++ b :: v) = ofBytes (u ++ c :: v) ↔ b = c := by
  rw [ofBytes, ofBytes, List.foldl_append, List.foldl_append, List.foldl_cons,
    List.foldl_cons, foldl_step_inj, step_right_inj]

/-- Names whose bytes differ in one place have different hashes, and so they
have different identifiers in every realm. -/
theorem ofName_ne_of_one_byte {name name' : String} {u v : List UInt8}
    {b c : UInt8} (hname : Text.toBytes name = u ++ b :: v)
    (hname' : Text.toBytes name' = u ++ c :: v) (hne : b ≠ c) :
    ofName name ≠ ofName name' ∧
      ∀ r : Realm, (Id.ofName name : Id r) ≠ Id.ofName name' := by
  have hhash : ofName name ≠ ofName name' := by
    rw [ofName, ofName, hname, hname', Ne, ofBytes_append_cons_inj]
    exact hne
  exact ⟨hhash, fun r heq => hhash (congrArg Id.raw heq)⟩

/-- The byte in which two names differ may be the second half of a character,
with more bytes behind it. -/
theorem ofName_ne_of_accents :
    Text.toBytes "café1" = [0x63, 0x61, 0x66, 0xC3] ++ 0xA9 :: [0x31] ∧
      Text.toBytes "cafè1" = [0x63, 0x61, 0x66, 0xC3] ++ 0xA8 :: [0x31] ∧
      (0xA9 : UInt8) ≠ 0xA8 ∧ ofName "café1" ≠ ofName "cafè1" ∧
      ∀ r : Realm, (Id.ofName "café1" : Id r) ≠ Id.ofName "cafè1" := by
  have hname : Text.toBytes "café1" =
      [0x63, 0x61, 0x66, 0xC3] ++ 0xA9 :: [0x31] := by decide
  have hname' : Text.toBytes "cafè1" =
      [0x63, 0x61, 0x66, 0xC3] ++ 0xA8 :: [0x31] := by decide
  have hne : (0xA9 : UInt8) ≠ 0xA8 := by decide
  exact ⟨hname, hname', hne, ofName_ne_of_one_byte hname hname' hne⟩

end NameHash

end ResourceHost
