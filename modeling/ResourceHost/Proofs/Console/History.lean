import Mathlib.Data.List.DropRight
import ResourceHost.Proofs.Console.Confinement

/-!
# What a console remembers

A line goes into the history before anything is made of it, so that it does not
matter whether it has words, whether they name a command, or whether that fails.
The history is what was entered last, as many lines as it keeps: each line that
finds it full drives out the oldest one.
-/

namespace ResourceHost.Console

/-! ### The end of a list -/

section

variable {α : Type} (l : List α)

theorem rtake_rtake (m n : Nat) : (l.rtake m).rtake n = l.rtake (min n m) := by
  rw [List.rtake_eq_reverse_take_reverse, List.rtake_eq_reverse_take_reverse,
    List.reverse_reverse, List.take_take, ← List.rtake_eq_reverse_take_reverse]

/-- The end of a list goes on as the list does. -/
theorem rtake_rtake_append_singleton (a : α) (n : Nat) :
    (l.rtake n ++ [a]).rtake n = (l ++ [a]).rtake n := by
  cases n with
  | zero => rw [List.rtake_zero, List.rtake_zero]
  | succ n =>
    rw [List.rtake_concat_succ, List.rtake_concat_succ, rtake_rtake,
      Nat.min_eq_left (Nat.le_succ n)]

end

/-! ### Lines that are entered -/

theorem isComment_iff {cs : List Char} :
    isComment cs = true ↔ "//".toList <+: cs := by
  constructor
  · intro h
    unfold isComment at h
    split at h
    · exact ⟨_, rfl⟩
    · cases h
  · rintro ⟨rest, rfl⟩
    rfl

/-- What a line leaves in the history: itself without the blanks around it,
unless nothing is left or it is a comment. -/
def noted? (line : String) : Option String :=
  if Text.trim line = "" ∨ "//".toList <+: (Text.trim line).toList then none
  else some (Text.trim line)

section

variable {S : Type} {R : S → Type} {σ : Type} (serve : (s : S) → StateM σ (R s))
  {k : Console S R}

/-- A line goes behind all others.  If that is one too many, the oldest goes. -/
theorem history_remember (hk : k.history.length ≤ maxHistory) (line : String) :
    (k.remember line).history =
      if k.history.length < maxHistory then k.history ++ [line]
      else k.history.tail ++ [line] := by
  simp only [remember, List.length_append, List.length_singleton]
  split
  · rename_i hroom
    rw [Nat.sub_eq_zero_of_le hroom, List.drop_zero]
  · rename_i hfull
    have hone : k.history.length + 1 - maxHistory = 1 := by omega
    have hne : k.history ≠ [] := by
      rintro hnil
      simp [hnil, maxHistory] at hfull
    rw [hone, List.drop_one, List.tail_append_of_ne_nil hne]

/-- Whatever words ask for, the history stays. -/
theorem history_execWords (k : Console S R) (ws : List String) (w : σ) :
    ((k.execWords serve ws).run w).1.2.history = k.history := by
  cases ws with
  | nil => rfl
  | cons name args =>
    rw [execWords]
    split
    · rfl
    · cases hc : k.commands.get? name with
      | some command => rfl
      | none =>
        show (k.execCvar name args).2.history = k.history
        unfold execCvar
        split
        · rfl
        · split <;> rfl

/-- A line goes into the history or not.  What is made of it does not matter. -/
theorem history_exec (k : Console S R) (line : String) (w : σ) :
    ((k.exec serve line).run w).1.2.history =
      (noted? line).elim k.history fun text => (k.remember text).history := by
  have hcomment : (decide (Text.trim line = "") ||
        isComment (Text.trim line).toList) = true ↔
      Text.trim line = "" ∨ "//".toList <+: (Text.trim line).toList := by
    rw [Bool.or_eq_true, decide_eq_true_iff, isComment_iff]
  unfold exec noted?
  dsimp only
  by_cases h : Text.trim line = "" ∨ "//".toList <+: (Text.trim line).toList
  · rw [if_pos (hcomment.2 h), if_pos h]
    rfl
  · rw [if_neg (mt hcomment.1 h), if_neg h]
    exact history_execWords serve _ _ w

end

/-! ### What can be done with a console -/

/-- What the owner of a console can do with it. -/
inductive Handling (S : Type) (R : S → Type) where
  | use (u : Use)
  | registerCvar (name : String) (value : Value) (description : String)
      (flags : UInt32)
  | registerCommand (name : String) (command : List String → Script S R)

namespace Handling

variable {S : Type} {R : S → Type} {σ : Type} (serve : (s : S) → StateM σ (R s))

/-- A console and the state of its services, after it was handled once. -/
def after : Handling S R → Console S R × σ → Console S R × σ
  | .use u, s => u.after serve s
  | .registerCvar name value description flags, (k, w) =>
    (k.registerCvar name value description flags, w)
  | .registerCommand name command, (k, w) => (k.registerCommand name command, w)

/-- A console and the state of its services, after it was handled again and
again. -/
def afterAll (handlings : List (Handling S R)) (s : Console S R × σ) :
    Console S R × σ :=
  handlings.foldl (fun s handling => handling.after serve s) s

/-- What is entered: only a line that is executed can be. -/
def noted? : Handling S R → Option String
  | .use (.exec line) => Console.noted? line
  | _ => none

/-- What is entered, in order. -/
def entered (handlings : List (Handling S R)) : List String :=
  handlings.filterMap noted?

end Handling

section

variable {S : Type} {R : S → Type} {σ : Type} (serve : (s : S) → StateM σ (R s))
  {k : Console S R} {lines : List String}

/-! ### Runs of a console -/

/-- The history is the end of the lines, as long as it may be. -/
def Remembers (k : Console S R) (lines : List String) : Prop :=
  k.history = lines.rtake maxHistory

theorem Remembers.remember (h : k.Remembers lines) (line : String) :
    (k.remember line).Remembers (lines ++ [line]) := by
  unfold Remembers at h ⊢
  calc (k.remember line).history
      = (lines.rtake maxHistory ++ [line]).rtake maxHistory := by rw [← h]; rfl
    _ = (lines ++ [line]).rtake maxHistory :=
      rtake_rtake_append_singleton lines line maxHistory

theorem Remembers.exec (h : k.Remembers lines) (line : String) (w : σ) :
    ((k.exec serve line).run w).1.2.Remembers
      (lines ++ (noted? line).toList) := by
  unfold Remembers
  rw [history_exec]
  cases noted? line with
  | none =>
    rw [Option.toList_none, List.append_nil]
    exact h
  | some text => exact h.remember text

/-- However a console is handled, its history goes on with what is entered. -/
theorem Remembers.after {s : Console S R × σ} (h : s.1.Remembers lines)
    (handling : Handling S R) :
    (handling.after serve s).1.Remembers (lines ++ handling.noted?.toList) := by
  cases handling with
  | use u =>
    cases u with
    | exec line => exact h.exec serve line s.2
    | setCvar name value => exact (List.append_nil lines).symm ▸ h
  | registerCvar name value description flags =>
    exact (List.append_nil lines).symm ▸ h
  | registerCommand name command => exact (List.append_nil lines).symm ▸ h

theorem Remembers.afterAll {s : Console S R × σ} (h : s.1.Remembers lines)
    (handlings : List (Handling S R)) :
    (Handling.afterAll serve handlings s).1.Remembers
      (lines ++ Handling.entered handlings) := by
  induction handlings generalizing s lines with
  | nil => exact (List.append_nil lines).symm ▸ h
  | cons handling handlings ih =>
    have hnext := ih (h.after serve handling)
    rw [List.append_assoc] at hnext
    have hentered : Handling.entered (handling :: handlings) =
        handling.noted?.toList ++ Handling.entered handlings := by
      cases hnoted : handling.noted? <;> simp [Handling.entered, hnoted]
    rw [hentered]
    exact hnext

/-- However a console is handled from its beginning on, whatever commands it is
given, whatever they do and whether they fail: its history is the end of all
lines that were entered, in their order and with their repetitions, a hundred
lines or as many as there are.  Nothing but executing a line changes it. -/
theorem history_is_tail (handlings : List (Handling S R)) (w : σ) :
    (∃ earlier, Handling.entered handlings =
        earlier ++ (Handling.afterAll serve handlings (new, w)).1.history) ∧
      (Handling.afterAll serve handlings (new, w)).1.history.length =
        min 100 (Handling.entered handlings).length ∧
      ∀ k : Console S R,
        (∀ name value, (k.setCvar name value).2.history = k.history) ∧
        (∀ name value description flags,
          (k.registerCvar name value description flags).history = k.history) ∧
        ∀ name command,
          (k.registerCommand name command).history = k.history := by
  have hnew : (new : Console S R).Remembers [] := rfl
  have hhistory := Remembers.afterAll serve (s := (new, w)) hnew handlings
  unfold Remembers at hhistory
  rw [hhistory, List.nil_append]
  refine ⟨?_, ?_, fun k => ⟨fun _ _ => rfl, fun _ _ _ _ => rfl, fun _ _ => rfl⟩⟩
  · obtain ⟨earlier, heq⟩ : (Handling.entered handlings).rtake
        maxHistory <:+ _ :=
      List.drop_suffix _ _
    exact ⟨earlier, heq.symm⟩
  · simp only [List.rtake, List.length_drop, maxHistory]
    omega

end

end ResourceHost.Console
