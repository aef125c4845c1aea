import ResourceHost.Proofs.Json.Collections

/-!
# Arrays and objects, printed and read

What is printed item by item, or member by member, is read back if each item
and each value is, whatever reads them.
-/

namespace ResourceHost.Json

open Reader

/-! ### Printed things -/

namespace Print

variable {α : Type} (print : α → List Char)

/-- The text of a member whose value is printed by `print`. -/
def memberBy (m : String × α) : List Char := member m.1 (print m.2)

theorem commas_cons (x : List Char) (xs : List (List Char)) :
    commas (x :: xs) = x ++ xs.flatMap (',' :: ·) := by
  induction xs generalizing x with
  | nil => simp [commas]
  | cons y ys ih => rw [commas, ih, List.flatMap_cons]; rfl

theorem member_eq (key : String) (value : List Char) :
    member key value = memberText (key.toList.flatMap char) [] [] value := by
  simp [member, text, memberText]

theorem length_le_length_commas (xs : List (List Char)) :
    xs.length ≤ (commas xs).length + 1 := by
  fun_induction commas xs with
  | case1 => exact Nat.zero_le _
  | case2 x => exact Nat.succ_le_succ (Nat.zero_le _)
  | case3 x y rest ih =>
    simp only [List.length_cons, List.length_append] at ih ⊢; omega

theorem length_le_length_commas_of_mem {x : List Char} {xs : List (List Char)}
    (h : x ∈ xs) : x.length ≤ (commas xs).length := by
  fun_induction commas xs with
  | case1 => exact absurd h List.not_mem_nil
  | case2 y =>
    exact Nat.le_of_eq (congrArg List.length (List.mem_singleton.1 h))
  | case3 y z rest ih =>
    simp only [List.length_cons, List.length_append]
    cases List.mem_cons.1 h with
    | inl h => rw [h]; omega
    | inr h => exact Nat.le_trans (ih h) (by omega)

/-- An array is longer than each of its items, and has fewer items than
characters. -/
theorem length_lt_length_array (as : List α) :
    (∀ a ∈ as, (print a).length < (array (as.map print)).length) ∧
      as.length < (array (as.map print)).length := by
  simp only [array, List.length_append, List.length_cons]
  refine ⟨fun a ha => ?_, ?_⟩
  · have hle :=
      length_le_length_commas_of_mem (List.mem_map_of_mem (f := print) ha)
    omega
  · have hcount := length_le_length_commas (as.map print)
    rw [List.length_map] at hcount
    omega

/-- An object is longer than each value in it, and has fewer members than
characters. -/
theorem length_lt_length_object (ms : List (String × α)) :
    (∀ m ∈ ms, (print m.2).length < (object (ms.map (memberBy print))).length) ∧
      ms.length < (object (ms.map (memberBy print))).length := by
  simp only [object, List.length_append, List.length_cons]
  refine ⟨fun m hm => ?_, ?_⟩
  · have hle :=
      length_le_length_commas_of_mem
        (List.mem_map_of_mem (f := memberBy print) hm)
    simp only [memberBy, member, List.length_append, List.length_cons] at hle
    omega
  · have hcount := length_le_length_commas (ms.map (memberBy print))
    rw [List.length_map] at hcount
    omega

end Print

/-! ### Items and members -/

section

variable {α : Type} {V : List Char → α → Prop} {print : α → List Char}
  {as : List α}

theorem listed_behind (h : ∀ a ∈ as, V (print a) a) :
    Listed V false ((as.map print).flatMap (',' :: ·)) as := by
  induction as with
  | nil => exact .none
  | cons a as ih =>
    rw [List.map_cons, List.flatMap_cons]
    exact .some (.next blank_nil blank_nil) (h a List.mem_cons_self)
      (ih fun a' ha' => h a' (List.mem_cons_of_mem a ha'))

/-- Printed things stand one behind the other, without blanks. -/
theorem listed_commas (h : ∀ a ∈ as, V (print a) a) :
    Listed V true (Print.commas (as.map print)) as := by
  cases as with
  | nil => exact .none
  | cons a as =>
    rw [List.map_cons, Print.commas_cons]
    exact .some (.first blank_nil) (h a List.mem_cons_self)
      (listed_behind fun a' ha' => h a' (List.mem_cons_of_mem a ha'))

end

namespace Reader

variable {α : Type} {print : α → List Char} {turns d : Nat} {rest : List UInt8}

theorem encode_text (s : String) (rest : List UInt8) :
    Text.encode (Print.text s) ++ rest =
      byte '"' :: (Text.encode (s.toList.flatMap Print.char) ++
        byte '"' :: rest) :=
  encode_quoted _ rest

/-- What is inside a printed array is read to the bracket that closes it. -/
theorem insideArray_print {item : Reader α} {as : List α}
    (h : ∀ a ∈ as, ReadsItem item ⟨turns, d⟩ (print a) a)
    (hturns : as.length < turns) :
    insideArray item ⟨turns, d + 1⟩
        (Text.encode (Print.commas (as.map print)) ++ byte ']' :: rest) =
          .ok (as, rest) :=
  insideArray_listed (listed_commas h) blank_nil hturns rest

/-- What is inside a printed object is read to the brace that closes it. -/
theorem insideObject_print {value : Reader α} {ms : List (String × α)}
    (h : ∀ m ∈ ms, Reads value ⟨turns, d⟩ (print m.2) m.2)
    (hturns : ms.length < turns) :
    insideObject value ⟨turns, d + 1⟩
        (Text.encode (Print.commas (ms.map (Print.memberBy print))) ++
          byte '\x7d' :: rest) =
      .ok (ms, rest) := by
  have hmembers : ∀ m ∈ ms,
      MemberOf (Reads value ⟨turns, d⟩) (Print.memberBy print m) m := by
    intro m hm
    rw [Print.memberBy, Print.member_eq]
    exact .member (spells_print _) blank_nil (h m hm)
  exact insideObject_listed (listed_commas hmembers) blank_nil hturns rest

/-- A printed object is read where one is wanted. -/
theorem object_print {value : Reader α} {ms : List (String × α)}
    (h : ∀ m ∈ ms, Reads value ⟨turns, d⟩ (print m.2) m.2)
    (hturns : ms.length < turns) :
    Reads (object value) ⟨turns, d + 1⟩
      (Print.object (ms.map (Print.memberBy print))) ms := by
  intro rest _
  rw [Print.object, encode_enclosed (by decide) (by decide), object, beginning,
    look_bind (by decide)]
  dsimp only
  rw [if_pos (beq_self_eq_true _), next_bind, insideObject_print h hturns]

end Reader

end ResourceHost.Json
