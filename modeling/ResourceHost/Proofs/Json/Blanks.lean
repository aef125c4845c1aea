import ResourceHost.Json.Reader.Shaped
import ResourceHost.Proofs.Json.Spellings

/-!
# Blanks

Blanks are passed over before any token: a reader that looks for the next byte
does what it does where there are none.
-/

namespace ResourceHost.Json

open Reader

theorem blank_nil : Blank [] := nofun

/-- A blank is one byte that may stand between tokens. -/
theorem Blank.encode_cons {c : Char} {w : List Char} (hw : Blank (c :: w)) :
    Text.encode (c :: w) = byte c :: Text.encode w ∧ isSpace (byte c) = true ∧
      Blank w := by
  refine ⟨?_, ?_, fun d hd => hw d (List.mem_cons_of_mem c hd)⟩
  · rcases hw c List.mem_cons_self with rfl | rfl | rfl | rfl <;>
      exact encode_ascii_cons (by decide) w
  · rcases hw c List.mem_cons_self with rfl | rfl | rfl | rfl <;> decide

theorem Blank.dropWhile {w : List Char} (hw : Blank w) (s : List UInt8) :
    (Text.encode w ++ s).dropWhile isSpace = s.dropWhile isSpace := by
  induction w with
  | nil => rfl
  | cons c w ih =>
    obtain ⟨hbytes, hspace, hw'⟩ := hw.encode_cons
    rw [hbytes, List.cons_append, List.dropWhile_cons_of_pos hspace, ih hw']

/-- A number cannot go on with a blank. -/
theorem Blank.apart {w : List Char} (hw : Blank w) {s : List UInt8}
    (hs : Apart s) : Apart (Text.encode w ++ s) := by
  cases w with
  | nil => exact hs
  | cons c w =>
    obtain ⟨hbytes, -, -⟩ := hw.encode_cons
    rw [hbytes, List.cons_append]
    rcases hw c List.mem_cons_self with rfl | rfl | rfl | rfl <;>
      exact apart_cons (by decide) _

theorem Lead.apart {l : List Char} (hl : Lead false l) (s : List UInt8) :
    Apart (Text.encode l ++ s) := by
  cases hl with
  | @next w w' hw hw' =>
    rw [Text.encode_append, List.append_assoc,
      encode_ascii_cons (c := ',') (by decide)]
    exact hw.apart (apart_cons (by decide) _)

namespace Reader

variable {α : Type} {scope : Scope} {b : UInt8} {w : List Char}

/-! ### Looking ahead -/

theorem look_of_cons (h : isSpace b = false) (s : List UInt8) :
    look scope (b :: s) = .ok (some b, b :: s) := by
  rw [look, List.dropWhile_cons_of_neg (Bool.eq_false_iff.1 h)]
  rfl

/-- Looking at a byte, then going on by what it is. -/
theorem look_bind (h : isSpace b = false) (f : Option UInt8 → Reader α)
    (s : List UInt8) :
    (look >>= f) scope (b :: s) = f (some b) scope (b :: s) :=
  bind_of_ok (look_of_cons h s) f

theorem next_bind (f : Option UInt8 → Reader α) (b : UInt8) (s : List UInt8) :
    (next >>= f) scope (b :: s) = f (some b) scope s := rfl

/-- Looking at a byte behind blanks, then going on by what it is. -/
theorem look_blank (hw : Blank w) (f : Option UInt8 → Reader α)
    (s : List UInt8) :
    (look >>= f) scope (Text.encode w ++ s) = (look >>= f) scope s := by
  have hlook : look scope (Text.encode w ++ s) = look scope s := by
    rw [look, look, hw.dropWhile]
  show andThen look f scope _ = andThen look f scope s
  rw [andThen, andThen, hlook]

theorem look_blank_bind (hw : Blank w) (h : isSpace b = false)
    (f : Option UInt8 → Reader α) (s : List UInt8) :
    (look >>= f) scope (Text.encode w ++ b :: s) =
      f (some b) scope (b :: s) := by
  rw [look_blank hw, look_bind h]

/-! ### Tokens behind blanks -/

/-- The key of a member is read in any spelling. -/
theorem anotherKey_lead {first : Bool} {l k : List Char} {key : String}
    (hl : Lead first l) (hk : Spells k key.toList) (s : List UInt8) :
    anotherKey first scope (Text.encode l ++ byte '"' ::
        (Text.encode k ++ byte '"' :: s)) =
      .ok (some key, s) := by
  cases hl with
  | first hw =>
    rw [anotherKey, look_blank_bind hw (by decide)]
    dsimp only
    rw [if_neg (by decide), if_pos rfl, if_pos (beq_self_eq_true _), next_bind,
      bind_of_ok (textTail_spells hk s)]
    rfl
  | @next w w' hw hw' =>
    rw [Text.encode_append, List.append_assoc,
      encode_ascii_cons (c := ',') (by decide), List.cons_append, anotherKey,
      look_blank_bind hw (by decide)]
    dsimp only
    rw [if_neg (by decide), if_neg Bool.false_ne_true,
      if_pos (beq_self_eq_true _), next_bind, look_blank_bind hw' (by decide)]
    dsimp only
    rw [if_pos (beq_self_eq_true _), next_bind,
      bind_of_ok (textTail_spells hk s)]
    rfl

theorem anotherKey_brace (hw : Blank w) (first : Bool) (s : List UInt8) :
    anotherKey first scope (Text.encode w ++ byte '\x7d' :: s) =
      .ok (none, byte '\x7d' :: s) := by
  rw [anotherKey, look_blank_bind hw (by decide)]
  rfl

theorem colon_blank (hw : Blank w) (s : List UInt8) :
    colon scope (Text.encode w ++ byte ':' :: s) = .ok ((), s) := by
  rw [colon, look_blank_bind hw (by decide)]
  rfl

end Reader

end ResourceHost.Json
