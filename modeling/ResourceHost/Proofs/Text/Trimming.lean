import Mathlib.Data.List.DropRight
import ResourceHost.Text.Blank

/-!
# Characters around a text

Characters of one class are dropped at both ends of a text, however many there
are.  Nothing else is: a text that neither begins nor ends with one of them is
kept, whatever it has inside.  Trimming drops the blanks.
-/

namespace ResourceHost.Text

/-! ### Characters at both ends -/

section

variable {p : Char → Bool} {cs before after : List Char}

/-- The text neither begins nor ends with a character of the class. -/
structure Bare (p : Char → Bool) (cs : List Char) : Prop where
  first : ∀ c, cs.head? = some c → p c = false
  last : ∀ c, cs.getLast? = some c → p c = false

/-- The text without the characters of the class at its ends. -/
def dropEnds (p : Char → Bool) (cs : List Char) : List Char :=
  (cs.dropWhile p).rdropWhile p

theorem dropWhile_of_first (h : ∀ c, cs.head? = some c → p c = false) :
    cs.dropWhile p = cs := by
  cases cs with
  | nil => rfl
  | cons c cs => simp [h c rfl]

theorem rdropWhile_of_last (h : ∀ c, cs.getLast? = some c → p c = false) :
    cs.rdropWhile p = cs := by
  rw [List.rdropWhile_eq_self_iff]
  intro hcs
  simp [h _ (List.getLast?_eq_some_getLast hcs)]

theorem dropEnds_of_bare (h : Bare p cs) : dropEnds p cs = cs := by
  rw [dropEnds, dropWhile_of_first h.first, rdropWhile_of_last h.last]

/-- What is left has none of them at its ends. -/
theorem bare_dropEnds (p : Char → Bool) (cs : List Char) :
    Bare p (dropEnds p cs) where
  first c hc := by
    obtain ⟨rest, hrest⟩ : dropEnds p cs <+: cs.dropWhile p :=
      List.rdropWhile_prefix p _
    have hhead := List.head?_dropWhile_not p cs
    rw [← hrest, List.head?_append, hc] at hhead
    simpa using hhead
  last c hc := by
    rw [dropEnds, List.rdropWhile, List.getLast?_reverse] at hc
    have hhead := List.head?_dropWhile_not p (cs.dropWhile p).reverse
    rw [hc] at hhead
    simpa using hhead

/-- Exactly the texts with none of them at their ends are left as they are. -/
theorem dropEnds_eq_self_iff : dropEnds p cs = cs ↔ Bare p cs :=
  ⟨fun h => h ▸ bare_dropEnds p cs, dropEnds_of_bare⟩

/-- What is dropped stands before and behind what is left. -/
theorem exists_eq_dropEnds (p : Char → Bool) (cs : List Char) :
    ∃ before after, cs = before ++ dropEnds p cs ++ after ∧
      (∀ c ∈ before, p c = true) ∧ ∀ c ∈ after, p c = true := by
  refine ⟨cs.takeWhile p, (cs.dropWhile p).rtakeWhile p, ?_,
    fun c => List.mem_takeWhile_imp, fun c => List.mem_rtakeWhile_imp⟩
  rw [dropEnds, List.append_assoc, List.rdropWhile_append_rtakeWhile,
    List.takeWhile_append_dropWhile]

/-- Characters of the class around a text are dropped. -/
theorem dropEnds_surround (hbefore : ∀ c ∈ before, p c = true)
    (hafter : ∀ c ∈ after, p c = true) (h : Bare p cs) :
    dropEnds p (before ++ cs ++ after) = cs := by
  rw [dropEnds, List.append_assoc, List.dropWhile_append_of_pos hbefore]
  cases cs with
  | nil =>
    rw [List.nil_append, List.dropWhile_eq_nil_iff.2 hafter,
      List.rdropWhile_nil]
  | cons c cs =>
    have hreverse : ∀ c ∈ after.reverse, p c = true := by simpa using hafter
    have hfirst : (c :: cs ++ after).dropWhile p = c :: cs ++ after :=
      dropWhile_of_first h.first
    rw [hfirst, List.rdropWhile, List.reverse_append,
      List.dropWhile_append_of_pos hreverse]
    exact rdropWhile_of_last h.last

/-- They are dropped together with those that the text itself has at its
ends. -/
theorem dropEnds_append (hbefore : ∀ c ∈ before, p c = true)
    (hafter : ∀ c ∈ after, p c = true) :
    dropEnds p (before ++ cs ++ after) = dropEnds p cs := by
  obtain ⟨front, back, hcs, hfront, hback⟩ := exists_eq_dropEnds p cs
  have hbefore' : ∀ c ∈ before ++ front, p c = true :=
    List.forall_mem_append.2 ⟨hbefore, hfront⟩
  have hafter' : ∀ c ∈ back ++ after, p c = true :=
    List.forall_mem_append.2 ⟨hback, hafter⟩
  calc dropEnds p (before ++ cs ++ after)
      = dropEnds p ((before ++ front) ++ dropEnds p cs ++ (back ++ after)) := by
        conv_lhs => rw [hcs]
        simp only [List.append_assoc]
    _ = dropEnds p cs := dropEnds_surround hbefore' hafter' (bare_dropEnds p cs)

end

/-! ### Blanks -/

/-- The text neither begins nor ends with a blank. -/
abbrev Tight (cs : List Char) : Prop := Bare isBlank cs

variable {cs : List Char}

theorem trimChars_eq_dropEnds (cs : List Char) :
    trimChars cs = dropEnds isBlank cs := rfl

/-- Exactly the texts without blanks at their ends are left as they are. -/
theorem trim_eq_self_iff {s : String} : trim s = s ↔ Tight s.toList := by
  rw [trim, ← String.toList_inj, String.toList_ofList, trimChars_eq_dropEnds]
  exact dropEnds_eq_self_iff

/-- Only the first part has to begin well, and only the last part to end
well. -/
theorem tight_append {ds : List Char} (hc : cs ≠ []) (hd : ds ≠ [])
    (hfirst : ∀ c, cs.head? = some c → isBlank c = false)
    (hlast : ∀ c, ds.getLast? = some c → isBlank c = false) :
    Tight (cs ++ ds) where
  first := by
    rw [List.head?_append_of_ne_nil cs hc]
    exact hfirst
  last := by
    rw [List.getLast?_append_of_ne_nil cs hd]
    exact hlast

/-- Blanks around a text are taken away. -/
theorem trimChars_surround {before after : List Char}
    (hbefore : ∀ c ∈ before, isBlank c = true)
    (hafter : ∀ c ∈ after, isBlank c = true) (h : Tight cs) :
    trimChars (before ++ cs ++ after) = cs :=
  dropEnds_surround hbefore hafter h

end ResourceHost.Text
