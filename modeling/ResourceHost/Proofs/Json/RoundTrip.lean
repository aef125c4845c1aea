import ResourceHost.Proofs.Json.Containers

/-!
# Values, printed and read

A value without floats is read back from its compact text, whatever stands
behind the text.
-/

namespace ResourceHost.Json

open Reader

namespace Value

/-- A value without floats, its integers in the range of 64 bits with or
without sign, with at most so many arrays and objects inside each other. -/
inductive Plain : Nat → Value → Prop
  | null (d : Nat) : Plain d .null
  | truth (d : Nat) (b : Bool) : Plain d (.truth b)
  | integer (d : Nat) {n : Int} (low : -9223372036854775808 ≤ n)
      (high : n ≤ 18446744073709551615) : Plain d (.integer n)
  | text (d : Nat) (s : String) : Plain d (.text s)
  | array {d : Nat} {items : List Value} (inside : ∀ v ∈ items, Plain d v) :
      Plain (d + 1) (.array items)
  | object {d : Nat} {members : List (String × Value)}
      (inside : ∀ m ∈ members, Plain d m.2) : Plain (d + 1) (.object members)

theorem printItems_eq (vs : List Value) : printItems vs = vs.map print := by
  induction vs with
  | nil => rfl
  | cons v vs ih => rw [printItems, ih]; rfl

theorem printMembers_eq (ms : List (String × Value)) :
    printMembers ms = ms.map (Print.memberBy print) := by
  induction ms with
  | nil => rfl
  | cons m ms ih => rw [printMembers, ih]; rfl

variable {scope : Scope} {rest : List UInt8} {b : UInt8}

/-- A value that begins with no bracket is read by `leaf`, at any depth. -/
theorem readTo_of_leaf (hspace : isSpace b = false)
    (harray : (b == byte '[') = false) (hobject : (b == byte '\x7b') = false)
    (d : Nat) (s : List UInt8) :
    readTo d scope (b :: s) = readTo.leaf b scope (b :: s) := by
  cases d with
  | zero => rw [readTo, look_bind hspace]
  | succ d =>
    rw [readTo, look_bind hspace]
    dsimp only
    rw [harray, hobject]
    rfl

theorem readTo_text (d : Nat) (s : String) :
    Reads (readTo d) scope (print (.text s)) (.text s) := by
  intro rest _
  rw [print, encode_text, readTo_of_leaf (by decide) (by decide) (by decide),
    readTo.leaf, if_neg (by decide), if_neg (by decide), if_neg (by decide),
    if_pos (by decide), next_bind,
    bind_of_ok (textTail_print scope s rest)]
  rfl

theorem readTo_null (d : Nat) : Reads (readTo d) scope (print .null) .null := by
  intro rest _
  show readTo d scope (byte 'n' :: byte 'u' :: byte 'l' :: byte 'l' :: rest) = _
  rw [readTo_of_leaf (by decide) (by decide) (by decide)]
  rfl

theorem readTo_truth (d : Nat) (b : Bool) :
    Reads (readTo d) scope (print (.truth b)) (.truth b) := by
  intro rest _
  cases b with
  | true =>
    show readTo d scope (byte 't' :: byte 'r' :: byte 'u' :: byte 'e' :: rest) =
      _
    rw [readTo_of_leaf (by decide) (by decide) (by decide)]
    rfl
  | false =>
    show readTo d scope (byte 'f' :: byte 'a' :: byte 'l' :: byte 's' ::
      byte 'e' :: rest) = _
    rw [readTo_of_leaf (by decide) (by decide) (by decide)]
    rfl

theorem ne_of_isDigit {c : UInt8} (hb : isDigit b = true)
    (hc : isDigit c = false) : b ≠ c := by
  rintro rfl
  exact Bool.noConfusion (hb.symm.trans hc)

theorem beq_of_isDigit {c : UInt8} (hb : isDigit b = true)
    (hc : isDigit c = false) : (b == c) = false :=
  beq_eq_false_iff_ne.2 (ne_of_isDigit hb hc)

theorem isSpace_of_isDigit (hb : isDigit b = true) : isSpace b = false := by
  rw [isSpace, beq_of_isDigit hb (by decide), beq_of_isDigit hb (by decide),
    beq_of_isDigit hb (by decide), beq_of_isDigit hb (by decide)]
  rfl

theorem encode_print_natural (n : Nat) :
    Text.encode (print (.integer n)) = digitBytes n := by
  rw [← encode_toDigits]
  exact congrArg Text.encode String.toList_ofList

theorem encode_print_negative (n : Nat) :
    Text.encode (print (.integer (.negSucc n))) =
      byte '-' :: digitBytes (n + 1) := by
  have hprint : print (.integer (.negSucc n)) =
      '-' :: Nat.toDigits 10 (n + 1) := by
    rw [print, Decimal.ofInt, Decimal.ofNat, String.toList_append,
      String.toList_ofList, String.toList_ofList]
    rfl
  rw [hprint, encode_ascii_cons (by decide), encode_toDigits]

theorem readTo_natural (d : Nat) {n : Nat} (hn : n ≤ maxSignificand) :
    Reads (readTo d) scope (print (.integer n)) (.integer n) := by
  intro rest hrest
  obtain ⟨b, ds, hcons, hb⟩ := exists_digitBytes_eq n
  have hnumber : number false scope (b :: (ds ++ rest)) =
      .ok (.natural n, rest) := by
    rw [← List.cons_append, ← hcons, number_print hn hrest false]
    rfl
  rw [encode_print_natural, hcons, List.cons_append,
    readTo_of_leaf (isSpace_of_isDigit hb)
      (beq_of_isDigit hb (by decide)) (beq_of_isDigit hb (by decide)),
    readTo.leaf, beq_of_isDigit hb (by decide), beq_of_isDigit hb (by decide),
    beq_of_isDigit hb (by decide), beq_of_isDigit hb (by decide),
    beq_of_isDigit hb (by decide), hb]
  exact bind_of_ok hnumber _

theorem readTo_negative (d : Nat) {n : Nat} (hn : n < 9223372036854775808) :
    Reads (readTo d) scope (print (.integer (.negSucc n)))
      (.integer (.negSucc n)) := by
  intro rest hrest
  have hsmall : n + 1 ≤ 9223372036854775808 := hn
  have hnumber : number true scope (digitBytes (n + 1) ++ rest) =
      .ok (.negative (n + 1), rest) := by
    rw [number_print (Nat.le_trans hsmall (by decide)) hrest true,
      if_neg (by decide), if_neg (mt eq_of_beq (Nat.succ_ne_zero n)),
      if_pos hsmall]
    rfl
  rw [encode_print_negative, List.cons_append,
    readTo_of_leaf (by decide) (by decide) (by decide), readTo.leaf,
    if_neg (by decide), if_neg (by decide), if_neg (by decide),
    if_neg (by decide), if_pos (by decide), next_bind,
    bind_of_ok hnumber]
  rfl

theorem Plain.opens {d : Nat} {v : Value} (h : Plain d v) :
    Opens (Text.encode (print v)) := by
  cases h with
  | null => exact ⟨_, _, rfl, by decide, by decide⟩
  | truth _ b => cases b <;> exact ⟨_, _, rfl, by decide, by decide⟩
  | @integer d n low high =>
    cases n with
    | ofNat n =>
      obtain ⟨b, ds, hcons, hb⟩ := exists_digitBytes_eq n
      exact ⟨b, ds, (encode_print_natural n).trans hcons, isSpace_of_isDigit hb,
        ne_of_isDigit hb (by decide)⟩
    | negSucc n => exact ⟨_, _, encode_print_negative n, by decide, by decide⟩
  | text => exact ⟨_, _, rfl, by decide, by decide⟩
  | array => exact ⟨_, _, rfl, by decide, by decide⟩
  | object => exact ⟨_, _, rfl, by decide, by decide⟩

/-- A value is read back from its text at the depth of its nesting. -/
theorem Plain.readTo_print {d : Nat} {v : Value} (h : Plain d v) :
    ∀ {turns : Nat}, (print v).length < turns →
      Reads (readTo d) ⟨turns, d⟩ (print v) v := by
  -- What is inside an array or an object has a shorter text, for which the
  -- turns are enough, and nests one level less, as the reader inside may.
  induction h with
  | null d => exact fun _ => readTo_null d
  | truth d b => exact fun _ => readTo_truth d b
  | @integer d n low high =>
    intro _ _
    cases n with
    | ofNat n => exact readTo_natural d (Int.ofNat_le.1 high)
    | negSucc n => exact readTo_negative d (by omega)
  | text d s => exact fun _ => readTo_text d s
  | @array d items inside ih =>
    intro turns hturns rest _
    rw [print, printItems_eq] at hturns ⊢
    obtain ⟨hlength, hcount⟩ := Print.length_lt_length_array print items
    have hitems : ∀ v ∈ items, ReadsItem (readTo d) ⟨turns, d⟩ (print v) v :=
      fun v hv =>
      ⟨(inside v hv).opens, ih v hv (Nat.lt_trans (hlength v hv) hturns)⟩
    rw [Print.array, encode_enclosed (by decide) (by decide), readTo,
      look_bind (by decide)]
    dsimp only
    rw [if_pos (beq_self_eq_true _), next_bind,
      bind_of_ok (insideArray_print hitems (Nat.lt_trans hcount hturns))]
    rfl
  | @object d members inside ih =>
    intro turns hturns rest _
    rw [print, printMembers_eq] at hturns ⊢
    obtain ⟨hlength, hcount⟩ := Print.length_lt_length_object print members
    have hmembers : ∀ m ∈ members,
        Reads (readTo d) ⟨turns, d⟩ (print m.2) m.2 := fun m hm =>
      ih m hm (Nat.lt_trans (hlength m hm) hturns)
    rw [Print.object, encode_enclosed (by decide) (by decide), readTo,
      look_bind (by decide)]
    dsimp only
    rw [if_neg (by decide), if_pos (beq_self_eq_true _), next_bind,
      bind_of_ok (insideObject_print hmembers (Nat.lt_trans hcount hturns))]
    rfl

theorem Plain.reads {d turns : Nat} {v : Value} (h : Plain d v)
    (hturns : (print v).length < turns) : Reads reader ⟨turns, d⟩ (print v) v :=
  h.readTo_print hturns

/-- Reading the text of a value sorts its objects and changes nothing else. -/
theorem ofBytes_compact {v : Value} (h : Plain maxDepth v) :
    ofBytes (Text.toBytes v.compact) = .ok v.sorted := by
  rw [ofBytes, compact,
    run_of_reads (h.reads (Nat.lt_succ_of_le (Text.length_le_length_encode _)))]
  rfl

/-- No two values have one text. -/
theorem Plain.eq_of_compact_eq {d : Nat} {v w : Value} (hv : Plain d v)
    (hw : Plain d w) (h : v.compact = w.compact) : v = w := by
  have hread := hv.reads (Nat.lt_succ_self _)
  rw [String.ofList_injective h] at hread
  exact hread.unique (hw.reads (Nat.lt_succ_self _))

end Value

end ResourceHost.Json
