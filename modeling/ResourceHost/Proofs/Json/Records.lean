import ResourceHost.Json.Layout
import ResourceHost.Proofs.Json.Skipping

/-!
# Records, read from objects

A record is read from an object whose members come in any order.  The member of
a field takes the draft one step further, and a member that nobody wants leaves
it as it is.
-/

namespace ResourceHost.Json

open Reader

/-! ### Single values -/

namespace Reader

variable {scope : Scope} {w : List Char}

/-- What may be `null` and is a text. -/
theorem optional_spells {cs : List Char} {s : String} (hw : Blank w)
    (h : Spells cs s.toList) (rest : List UInt8) :
    optional text scope (Text.encode w ++
        (Text.encode ('"' :: (cs ++ ['"'])) ++ rest)) =
      .ok (some s, rest) := by
  have htext : text scope (byte '"' :: (Text.encode cs ++ byte '"' :: rest)) =
      .ok (s, rest) := by
    rw [← encode_quoted]
    exact text_spells blank_nil h rest
  rw [encode_quoted, optional, look_blank_bind hw (by decide)]
  dsimp only
  rw [if_neg (by decide), bind_of_ok htext]
  rfl

theorem optional_null {α : Type} (value : Reader α) (hw : Blank w)
    (rest : List UInt8) :
    optional value scope (Text.encode w ++
        (Text.encode ['n', 'u', 'l', 'l'] ++ rest)) =
      .ok (none, rest) := by
  show (look >>= _) scope (Text.encode w ++ byte 'n' :: _) = _
  rw [look_blank_bind hw (by decide)]
  rfl

theorem truth_true (hw : Blank w) (rest : List UInt8) :
    truth scope (Text.encode w ++ (Text.encode ['t', 'r', 'u', 'e'] ++ rest)) =
      .ok (true, rest) := by
  show (look >>= _) scope (Text.encode w ++ byte 't' :: _) = _
  rw [look_blank_bind hw (by decide)]
  rfl

theorem truth_false (hw : Blank w) (rest : List UInt8) :
    truth scope (Text.encode w ++
        (Text.encode ['f', 'a', 'l', 's', 'e'] ++ rest)) =
      .ok (false, rest) := by
  show (look >>= _) scope (Text.encode w ++ byte 'f' :: _) = _
  rw [look_blank_bind hw (by decide)]
  rfl

end Reader

/-! ### Members -/

variable {δ : Type}

/-- A field reads a text, behind blanks, from one draft into another. -/
def Field.Fills (f : Field δ) (d : δ) (v : List Char) (d' : δ) : Prop :=
  ∀ (scope : Scope) (w : List Char) (rest : List UInt8), Blank w → Apart rest →
    f.fill d scope (Text.encode w ++ (Text.encode v ++ rest)) = .ok (d', rest)

namespace Layout

/-- The member of a field that the draft has not takes the draft further, and a
member of which the layout knows nothing leaves it as it is. -/
inductive Takes (layout : Layout δ) : δ → List Char → δ → Prop where
  | field {key : String} {k w w' v : List Char} {f : Field δ} {d d' : δ}
      (hk : Spells k key.toList) (hw : Blank w) (hw' : Blank w')
      (hf : layout.find? key = some f) (hset : f.isSet d = false)
      (hv : f.Fills d v d') : Takes layout d (memberText k w w' v) d'
  | other {key : String} {k w w' v : List Char} {d : δ}
      (hk : Spells k key.toList) (hw : Blank w) (hw' : Blank w')
      (hf : layout.find? key = none) (hv : Written .value v) :
      Takes layout d (memberText k w w' v) d

/-- What the members inside an object make of a draft, from the first or from a
later one. -/
inductive TakesAll (layout : Layout δ) :
    (first : Bool) → δ → List Char → δ → Prop where
  | none {first : Bool} {d : δ} : TakesAll layout first d [] d
  | some {first : Bool} {l m ms : List Char} {d d' d'' : δ} (hl : Lead first l)
      (h : layout.Takes d m d') (hs : TakesAll layout false d' ms d'') :
      TakesAll layout first d (l ++ (m ++ ms)) d''

variable {layout : Layout δ} {scope : Scope} {rest : List UInt8}

theorem TakesAll.apart {d d' : δ} {ms : List Char}
    (h : layout.TakesAll false d ms d') (hrest : Apart rest) :
    Apart (Text.encode ms ++ rest) := by
  cases h with
  | none => exact hrest
  | @some first l m ms d d' d'' hl h hs =>
    rw [Text.encode_append, List.append_assoc]
    exact hl.apart _

/-- One member is read, and then those behind it. -/
theorem fillMembers_member {first : Bool} {l m : List Char} {d d' : δ}
    (hl : Lead first l) (h : layout.Takes d m d')
    (hturns : m.length ≤ scope.turns) (n : Nat) (hrest : Apart rest) :
    layout.fillMembers (n + 1) first d scope
        (Text.encode l ++ (Text.encode m ++ rest)) =
      layout.fillMembers n false d' scope rest := by
  cases h with
  | @field key k w w' v f d d' hk hw hw' hf hset hv =>
    rw [encode_memberText, fillMembers, bind_of_ok (anotherKey_lead hl hk _)]
    dsimp only
    rw [hf]
    dsimp only
    rw [hset, if_neg Bool.false_ne_true, bind_of_ok (colon_blank hw _),
      bind_of_ok (hv scope w' rest hw' hrest)]
  | @other key k w w' v d hk hw hw' hf hv =>
    have hv' : v.length ≤ scope.turns := by
      simp only [memberText, List.length_cons, List.length_append] at hturns
      omega
    rw [encode_memberText, fillMembers, bind_of_ok (anotherKey_lead hl hk _)]
    dsimp only
    rw [hf]
    dsimp only
    rw [bind_of_ok (colon_blank hw _), bind_of_ok (hv.skip hw' hv' hrest)]

-- By induction on the members; each has a turn, and the brace has one more.
theorem fillMembers_takesAll {first : Bool} {ms w : List Char} {d d' : δ}
    (h : layout.TakesAll first d ms d') (hd : layout.isComplete d' = true)
    (hw : Blank w) :
    ∀ n, ms.length ≤ n → ms.length ≤ scope.turns →
      layout.fillMembers (n + 1) first d scope
          (Text.encode ms ++ (Text.encode w ++ byte '\x7d' :: rest)) =
        .ok (d', byte '\x7d' :: rest) := by
  induction h with
  | @none first d =>
    intro n _ _
    show layout.fillMembers (n + 1) first d scope
      (Text.encode w ++ byte '\x7d' :: rest) = _
    rw [fillMembers, bind_of_ok (anotherKey_brace hw first rest)]
    dsimp only
    rw [hd]
    rfl
  | @some first l m ms d d' d'' hl h hs ih =>
    intro n hn hturns
    rw [List.length_append, List.length_append] at hn hturns
    have hm : 0 < m.length := by cases h <;> simp [memberText]
    have hbrace : Apart (Text.encode w ++ byte '\x7d' :: rest) :=
      hw.apart (apart_cons (by decide) _)
    obtain ⟨n, rfl⟩ := Nat.exists_eq_succ_of_ne_zero (n := n) (by omega)
    rw [Text.encode_append, Text.encode_append, List.append_assoc,
      List.append_assoc, fillMembers_member hl h (by omega) _ (hs.apart hbrace)]
    exact ih hd n (by omega) (by omega)

/-- A record is read from an object of its members, up to the brace that closes
it. -/
theorem read_object {ms w w' : List Char} {d d' : δ}
    (h : layout.TakesAll true d ms d') (hd : layout.isComplete d' = true)
    (hw : Blank w) (hw' : Blank w') {turns depth : Nat}
    (hturns : ms.length < turns) :
    layout.read d ⟨turns, depth + 1⟩
        (Text.encode w ++ byte '\x7b' ::
          (Text.encode ms ++ (Text.encode w' ++ byte '\x7d' :: rest))) =
      .ok (d', rest) := by
  obtain ⟨n, rfl⟩ := Nat.exists_eq_succ_of_ne_zero (n := turns) (by omega)
  have hmembers : layout.fillMembers (n + 1) true d ⟨n + 1, depth⟩
      (Text.encode ms ++ (Text.encode w' ++ byte '\x7d' :: rest)) =
        .ok (d', byte '\x7d' :: rest) :=
    fillMembers_takesAll h hd hw' n (by omega) (by simp only; omega)
  have hinside : nested (fun scope s =>
        layout.fillMembers scope.turns true d scope s)
      ⟨n + 1, depth + 1⟩ (Text.encode ms ++
          (Text.encode w' ++ byte '\x7d' :: rest)) =
        .ok (d', byte '\x7d' :: rest) := hmembers
  rw [Layout.read, look_blank_bind hw (by decide)]
  dsimp only
  rw [if_pos (beq_self_eq_true _), next_bind, bind_of_ok hinside]
  rfl

end Layout

end ResourceHost.Json
