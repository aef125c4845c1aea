import ResourceHost.Console.Value
import ResourceHost.Proofs.Decimal.Integers
import ResourceHost.Proofs.Text.Trimming

/-!
# Values, displayed and read

A displayed value is read as what it was: integers and truth values have no
quotes, and texts have theirs, with which those at the ends of the text itself
are lost.  Without quotes a text is read as a text only if nothing else can be
made of it.
-/

namespace ResourceHost.Console

variable {c : Char} {cs : List Char}

/-! ### Characters taken off the ends -/

/-- The text neither begins nor ends with the character. -/
theorem bare_beq_iff :
    Text.Bare (· == c) cs ↔ cs.head? ≠ some c ∧ cs.getLast? ≠ some c := by
  constructor
  · intro h
    refine ⟨fun hfirst => ?_, fun hlast => ?_⟩
    · simpa using h.first c hfirst
    · simpa using h.last c hlast
  · rintro ⟨hfirst, hlast⟩
    refine ⟨fun d hd => beq_false_of_ne ?_, fun d hd => beq_false_of_ne ?_⟩
    · rintro rfl
      exact hfirst hd
    · rintro rfl
      exact hlast hd

theorem stripEnds_eq_dropEnds (c : Char) (cs : List Char) :
    stripEnds c cs = Text.dropEnds (· == c) cs := rfl

theorem stripEnds_of_not_mem (h : c ∉ cs) : stripEnds c cs = cs := by
  rw [stripEnds_eq_dropEnds, Text.dropEnds_eq_self_iff, bare_beq_iff]
  exact ⟨mt List.mem_of_mem_head? h, mt List.mem_of_mem_getLast? h⟩

namespace Value

/-- The text is neither a number nor the word of a truth value. -/
structure Wordy (s : String) : Prop where
  no_integer : Decimal.readInt64? s = none
  no_float : Decimal.readFloat? s = none
  no_truth : ∀ b, s ≠ truthWord b

theorem parse_display_integer (n : Int64) :
    parse (display (.integer n)) = .integer n := by
  simp only [parse, display, asText, Decimal.readInt64?_ofInt]

theorem parse_display_truth (b : Bool) :
    parse (display (.truth b)) = .truth b := by
  cases b <;> rfl

/-! What begins with a quote is neither a number nor the word of a truth
value. -/

theorem readInt64?_of_quote {s : String} (h : s.toList = '"' :: cs) :
    Decimal.readInt64? s = none := by
  rw [Decimal.readInt64?, h]
  rfl

theorem readFloat?_of_quote {s : String} (h : s.toList = '"' :: cs) :
    Decimal.readFloat? s = none := by
  have hlower : Decimal.lower '"' = '"' := by decide
  have hdigit : Decimal.isDigit '"' = false := by decide
  rw [Decimal.readFloat?, h]
  simp [Decimal.magnitude?, hlower, hdigit]

theorem ne_truthWord_of_quote {s : String} (h : s.toList = '"' :: cs)
    (b : Bool) : s ≠ truthWord b := by
  rintro rfl
  cases b <;> cases h

/-- A displayed text is read as a text, whatever it looks like, and without the
quotes at its ends. -/
theorem parse_display_text (s : String) :
    parse (display (.text s)) =
      .text (String.ofList (stripEnds '"' s.toList)) := by
  have hquoted : (display (.text s)).toList = ['"'] ++ s.toList ++ ['"'] := by
    simp [display]
  have htrue : display (.text s) ≠ "true" := ne_truthWord_of_quote hquoted true
  have hfalse : display (.text s) ≠ "false" :=
    ne_truthWord_of_quote hquoted false
  have hstrip : stripEnds '"' (['"'] ++ s.toList ++ ['"']) =
      stripEnds '"' s.toList :=
    Text.dropEnds_append (by simp) (by simp)
  simp only [parse, readInt64?_of_quote hquoted, readFloat?_of_quote hquoted,
    if_neg htrue, if_neg hfalse, hquoted, hstrip]

/-- The second text is the first without the quotes at its ends, all of them. -/
structure Unquotes (s t : String) : Prop where
  around : ∃ before after : List Char, s.toList = before ++ t.toList ++ after ∧
    (∀ c ∈ before, c = '"') ∧ ∀ c ∈ after, c = '"'
  first : t.toList.head? ≠ some '"'
  last : t.toList.getLast? ≠ some '"'

theorem unquotes_stripEnds (s : String) :
    Unquotes s (String.ofList (stripEnds '"' s.toList)) := by
  obtain ⟨before, after, hs, hbefore, hafter⟩ :=
    Text.exists_eq_dropEnds (· == '"') s.toList
  obtain ⟨hfirst, hlast⟩ :=
    bare_beq_iff.1 (Text.bare_dropEnds (· == '"') s.toList)
  rw [← stripEnds_eq_dropEnds] at hs hfirst hlast
  refine ⟨⟨before, after, ?_, ?_, ?_⟩, ?_, ?_⟩
  · rw [String.toList_ofList]
    exact hs
  · simpa using hbefore
  · simpa using hafter
  · rwa [String.toList_ofList]
  · rwa [String.toList_ofList]

/-- Nothing is taken off exactly if the text neither begins nor ends with a
quote. -/
theorem ofList_stripEnds_eq_self_iff {s : String} :
    String.ofList (stripEnds '"' s.toList) = s ↔
      s.toList.head? ≠ some '"' ∧ s.toList.getLast? ≠ some '"' := by
  rw [← String.toList_inj, String.toList_ofList, stripEnds_eq_dropEnds,
    Text.dropEnds_eq_self_iff, bare_beq_iff]

/-- Reading undoes the display of integers, of truth values, and of texts up to
the quotes at their ends: a text stays a text, and the same one exactly if it
has no quote there. -/
theorem display_undone :
    (∀ n : Int64, parse (display (.integer n)) = .integer n) ∧
      (∀ b : Bool, parse (display (.truth b)) = .truth b) ∧
      ∀ s : String, ∃ t, parse (display (.text s)) = .text t ∧ Unquotes s t ∧
        (t = s ↔ s.toList.head? ≠ some '"' ∧ s.toList.getLast? ≠ some '"') :=
  ⟨parse_display_integer, parse_display_truth, fun s =>
    ⟨String.ofList (stripEnds '"' s.toList), parse_display_text s,
      unquotes_stripEnds s, ofList_stripEnds_eq_self_iff⟩⟩

/-- Integers, truth values, and texts without quotes. -/
def Quoteless : Value → Prop
  | .real _ => False
  | .text s => '"' ∉ s.toList
  | _ => True

/-- Without its quotes it is read as what it is. -/
def ReadsBack : Value → Prop
  | .text s => Wordy s
  | _ => True

/-- Without its quotes a text reads back exactly if it is neither a number nor
the word of a truth value. -/
theorem parse_eq_text_iff {s : String} (h : '"' ∉ s.toList) :
    parse s = .text s ↔ Wordy s := by
  constructor
  · intro hs
    refine ⟨?_, ?_, fun b hb => ?_⟩
    · cases hn : Decimal.readInt64? s with
      | none => rfl
      | some n => simp [parse, hn] at hs
    · cases hx : Decimal.readFloat? s with
      | none => rfl
      | some x => cases hn : Decimal.readInt64? s <;> simp [parse, hn, hx] at hs
    · have htruth := parse_display_truth b
      rw [display, asText, ← hb, hs] at htruth
      · cases htruth
      · simp
  · rintro ⟨hn, hx, htruth⟩
    have htrue : s ≠ "true" := htruth true
    have hfalse : s ≠ "false" := htruth false
    simp only [parse, hn, hx, if_neg htrue, if_neg hfalse,
      stripEnds_of_not_mem h, String.ofList_toList]

theorem wordy_empty : Wordy "" := by
  refine ⟨rfl, rfl, fun b => ?_⟩
  cases b <;> decide

theorem readsBack_of_asText_empty {v : Value} (h : v.asText = "") :
    v.ReadsBack := by
  cases v with
  | text s =>
    rw [asText] at h
    subst h
    exact wordy_empty
  | _ => trivial

theorem parse_asText_iff {v : Value} (h : v.Quoteless) :
    parse v.asText = v ↔ v.ReadsBack := by
  cases v with
  | integer n => exact iff_of_true (parse_display_integer n) trivial
  | real x => exact h.elim
  | text s => exact parse_eq_text_iff h
  | truth b => exact iff_of_true (parse_display_truth b) trivial

end Value

end ResourceHost.Console
