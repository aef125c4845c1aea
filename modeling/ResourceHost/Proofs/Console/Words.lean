import ResourceHost.Console.Basic
import ResourceHost.Proofs.Text.Trimming

/-!
# The words of a line

How a line is cut is told by stretches.  A stretch spells a word if, met outside
quotes, it adds the word to what has begun and leaves quotes closed: a word
without quotes and separators spells itself, and any word without quotes is
spelled by itself in quotes.  What stands behind a word and a gap is cut as if
nothing stood before it.
-/

namespace ResourceHost.Console

/-! ### The cutter, character by character -/

namespace Cutter

variable {k : Cutter} {c : Char} {cs : List Char} {ws : List (List Char)}

@[simp] theorem step_quote (k : Cutter) :
    k.step '"' = { k with quoted := !k.quoted } := by
  simp [step]

theorem step_of_separator (hc : isSeparator c = true) (hk : k.quoted = false) :
    k.step c = k.endWord := by
  have hquote : c ≠ '"' := by
    rintro rfl
    cases hc
  simp [step, hquote, hc, hk]

theorem step_of_kept (hc : c ≠ '"')
    (h : isSeparator c = true → k.quoted = true) :
    k.step c = { k with word := c :: k.word } := by
  have hkept : (isSeparator c && !k.quoted) = false := by
    cases hs : isSeparator c
    · rfl
    · simp [h hs]
  simp [step, hc, hkept]

/-- Characters are kept unless they are quotes, or separators outside quotes. -/
theorem foldl_step_of_kept
    (h : ∀ c ∈ cs, c ≠ '"' ∧ (isSeparator c = true → k.quoted = true)) :
    cs.foldl step k = { k with word := cs.reverse ++ k.word } := by
  induction cs generalizing k with
  | nil => rfl
  | cons c cs ih =>
    obtain ⟨hquote, hsep⟩ := h c List.mem_cons_self
    have hrest : ∀ d ∈ cs, d ≠ '"' ∧ (isSeparator d = true → k.quoted = true) :=
      fun d hd => h d (List.mem_cons_of_mem c hd)
    rw [List.foldl_cons, step_of_kept hquote hsep,
      ih (k := { k with word := c :: k.word }) hrest]
    simp

theorem quoted_endWord (k : Cutter) : k.endWord.quoted = k.quoted := by
  unfold endWord
  split <;> rfl

@[simp] theorem endWord_endWord (k : Cutter) :
    k.endWord.endWord = k.endWord := by
  unfold endWord
  split
  · rfl
  · rfl

/-- A gap ends the word that has begun, however long it is. -/
theorem foldl_step_of_gap (h : ∀ c ∈ cs, isSeparator c = true) (hne : cs ≠ [])
    (hk : k.quoted = false) : cs.foldl step k = k.endWord := by
  induction cs generalizing k with
  | nil => exact absurd rfl hne
  | cons c cs ih =>
    rw [List.foldl_cons, step_of_separator (h c List.mem_cons_self) hk]
    cases cs with
    | nil => rfl
    | cons d cs =>
      rw [ih (fun e he => h e (List.mem_cons_of_mem c he)) (by simp)
        ((quoted_endWord k).trans hk), endWord_endWord]

/-- The words that have been cut off, in their order, once the last one is
complete. -/
def result (k : Cutter) : List String :=
  (k.endWord.words.map String.ofList).reverse

/-- The cutter with other words complete before its own. -/
def behind (k : Cutter) (ws : List (List Char)) : Cutter :=
  { k with words := k.words ++ ws }

theorem endWord_behind : (k.behind ws).endWord = k.endWord.behind ws := by
  unfold endWord behind
  by_cases hw : k.word.isEmpty = true
  · simp only [if_pos hw]
  · simp only [if_neg hw, List.cons_append]

theorem step_behind : (k.behind ws).step c = (k.step c).behind ws := by
  by_cases hquote : c = '"'
  · subst hquote
    simp [behind]
  · unfold step
    simp only [if_neg hquote]
    split
    · rename_i hsep
      rw [if_pos (show isSeparator c && !k.quoted from hsep), endWord_behind]
    · rename_i hsep
      rw [if_neg (show ¬ (isSeparator c && !k.quoted) from hsep)]
      rfl

/-- Words that are complete have no part in how the rest is cut. -/
theorem foldl_step_behind :
    cs.foldl step (k.behind ws) = (cs.foldl step k).behind ws := by
  induction cs generalizing k with
  | nil => rfl
  | cons c cs ih => rw [List.foldl_cons, List.foldl_cons, step_behind, ih]

theorem result_behind :
    (k.behind ws).result = (ws.map String.ofList).reverse ++ k.result := by
  rw [result, endWord_behind]
  simp [behind, result]

end Cutter

theorem words_eq_result (line : String) :
    words line = (line.toList.foldl Cutter.step {}).result := rfl

/-! ### Spelling -/

/-- Met outside quotes, the text adds `w` to the word that has begun and leaves
quotes closed. -/
def Spells (text w : String) : Prop :=
  ∀ k : Cutter, k.quoted = false →
    text.toList.foldl Cutter.step k =
      { k with word := w.toList.reverse ++ k.word }

/-- A text in quotes. -/
def quote (s : String) : String := "\"" ++ s ++ "\""

/-- A text that separates words outside quotes. -/
structure Gap (s : String) : Prop where
  ne_empty : s ≠ ""
  separates : ∀ c ∈ s.toList, isSeparator c = true

instance (s : String) : Decidable (Gap s) :=
  decidable_of_iff (s ≠ "" ∧ s.toList.all isSeparator = true)
    ⟨fun h => ⟨h.1, List.all_eq_true.1 h.2⟩,
      fun h => ⟨h.ne_empty, List.all_eq_true.2 h.separates⟩⟩

variable {text w gap rest : String}

theorem spells_quote (h : '"' ∉ w.toList) : Spells (quote w) w := by
  intro k hk
  have hkept : ∀ c ∈ w.toList, c ≠ '"' ∧
      (isSeparator c = true → (k.step '"').quoted = true) := by
    intro c hc
    refine ⟨?_, fun _ => by simp [hk]⟩
    rintro rfl
    exact h hc
  have hopen : (quote w).toList = '"' :: w.toList ++ ['"'] := by simp [quote]
  rw [hopen, List.cons_append, List.foldl_cons, List.foldl_append,
    Cutter.foldl_step_of_kept hkept]
  simp [hk]

theorem spells_self (h : ∀ c ∈ w.toList, c ≠ '"' ∧ isSeparator c = false) :
    Spells w w := by
  intro k hk
  apply Cutter.foldl_step_of_kept
  intro c hc
  obtain ⟨hquote, hsep⟩ := h c hc
  exact ⟨hquote, by simp [hsep]⟩

/-- A line that spells a word has it as its only word, or none if it is
empty. -/
theorem words_of_spells (h : Spells text w) :
    words text = if w = "" then [] else [w] := by
  rw [words_eq_result, h {} rfl]
  split
  · rename_i hw
    subst hw
    rfl
  · rename_i hw
    have hne : w.toList ≠ [] := by simpa using hw
    simp [Cutter.result, Cutter.endWord, hne]

/-- What stands behind a word and a gap is cut as if nothing stood before it. -/
theorem words_of_spells_gap (h : Spells text w) (hw : w ≠ "") (hgap : Gap gap) :
    words (text ++ gap ++ rest) = w :: words rest := by
  have hne : w.toList ≠ [] := by simpa using hw
  have hlen : gap.toList ≠ [] := by simpa using hgap.ne_empty
  have hcut : (text ++ gap).toList.foldl Cutter.step {} =
      Cutter.behind {} [w.toList] := by
    rw [String.toList_append, List.foldl_append, h {} rfl,
      Cutter.foldl_step_of_gap hgap.separates hlen rfl]
    simp [Cutter.endWord, Cutter.behind, hne]
  rw [words_eq_result, String.toList_append, List.foldl_append, hcut,
    Cutter.foldl_step_behind, Cutter.result_behind, ← words_eq_result]
  simp

/-! ### Lines of quoted words -/

/-- A word that can stand in quotes. -/
structure Quotable (w : String) : Prop where
  ne_empty : w ≠ ""
  no_quote : '"' ∉ w.toList

instance (w : String) : Decidable (Quotable w) :=
  decidable_of_iff (w ≠ "" ∧ '"' ∉ w.toList)
    ⟨fun h => ⟨h.1, h.2⟩, fun h => ⟨h.ne_empty, h.no_quote⟩⟩

/-- Words in quotes: the first, then each of the others behind the gap that it
brings. -/
def quoted : String → List (String × String) → String
  | w, [] => quote w
  | w, (gap, w') :: rest => quote w ++ gap ++ quoted w' rest

theorem words_quoted {args : List (String × String)} (hw : Quotable w)
    (hargs : ∀ a ∈ args, Gap a.1 ∧ Quotable a.2) :
    words (quoted w args) = w :: args.map (·.2) := by
  induction args generalizing w with
  | nil =>
    rw [quoted, words_of_spells (spells_quote hw.no_quote), if_neg hw.ne_empty]
    rfl
  | cons a args ih =>
    obtain ⟨hgap, hword⟩ := hargs a List.mem_cons_self
    rw [quoted, words_of_spells_gap (spells_quote hw.no_quote) hw.ne_empty hgap,
      ih hword fun b hb => hargs b (List.mem_cons_of_mem a hb)]
    rfl

/-- Quoted words begin and end with a quote. -/
theorem exists_quoted_eq (w : String) (args : List (String × String)) :
    ∃ inner, (quoted w args).toList = '"' :: inner ++ ['"'] := by
  induction args generalizing w with
  | nil => exact ⟨w.toList, by simp [quoted, quote]⟩
  | cons a args ih =>
    obtain ⟨inner, hinner⟩ := ih a.2
    exact ⟨w.toList ++ '"' :: a.1.toList ++ '"' :: inner,
      by simp [quoted, quote, hinner]⟩

/-! ### Executing a line -/

section

variable {S : Type} {R : S → Type} {m : Type → Type} [Monad m]

/-- A line that is neither blank nor a comment is entered without the blanks
around it, and its words are executed. -/
theorem exec_of_trim (serve : (s : S) → m (R s)) (k : Console S R)
    {line text : String} (htrim : Text.trim line = text) (hne : text ≠ "")
    (hcomment : isComment text.toList = false) :
    k.exec serve line = (k.remember text).execWords serve (words text) := by
  subst htrim
  have hentered : ¬ (decide (Text.trim line = "") ||
      isComment (Text.trim line).toList) = true := by
    simp [hne, hcomment]
  unfold exec
  dsimp only
  rw [if_neg hentered]

/-- Blanks only. -/
def Blank (s : String) : Prop := ∀ c ∈ s.toList, Text.isBlank c = true

instance (s : String) : Decidable (Blank s) :=
  List.decidableBAll (Text.isBlank · = true) s.toList

theorem trim_surround_quoted {before after : String} (hbefore : Blank before)
    (hafter : Blank after) (w : String) (args : List (String × String)) :
    Text.trim (before ++ quoted w args ++ after) = quoted w args := by
  obtain ⟨inner, hinner⟩ := exists_quoted_eq w args
  have hquote : Text.isBlank '"' = false := by decide
  have htight : Text.Tight (quoted w args).toList := by
    rw [hinner]
    constructor
    · intro c hc
      cases hc
      exact hquote
    · intro c hc
      rw [List.getLast?_concat] at hc
      cases hc
      exact hquote
  rw [Text.trim, String.toList_append, String.toList_append,
    Text.trimChars_surround hbefore hafter htight, String.ofList_toList]

/-- Words in quotes are handed to their command as they are: a line of words in
quotes, with gaps between them and blanks around them, runs the command that the
first word names, once, with the words behind it as its arguments. -/
theorem exec_quoted (serve : (s : S) → m (R s)) (k : Console S R)
    {name : String} {command : List String → Script S R} (hhelp : name ≠ "help")
    (hget : k.commands.get? name = some command) (hname : Quotable name)
    {args : List (String × String)} (hargs : ∀ a ∈ args, Gap a.1 ∧ Quotable a.2)
    {before after : String} (hbefore : Blank before) (hafter : Blank after) :
    k.exec serve (before ++ quoted name args ++ after) = (do
      let (result, vs, out) ← (command (args.map (·.2))).run serve k.cvars []
      pure (Activity.explain (.runCommand name) (result.map fun _ => out),
        { k.remember (quoted name args) with cvars := vs })) := by
  obtain ⟨inner, hinner⟩ := exists_quoted_eq name args
  have hne : quoted name args ≠ "" := by
    intro h
    simp [h] at hinner
  have hcomment : isComment (quoted name args).toList = false := by
    rw [hinner]; rfl
  have hget' : (k.remember (quoted name args)).commands.get? name =
      some command := hget
  rw [exec_of_trim serve k (trim_surround_quoted hbefore hafter name args) hne
      hcomment,
    words_quoted hname hargs, execWords, if_neg hhelp, hget']
  rfl

/-! A command whose name has a blank in it, on a console that notes the
arguments which it hands over. -/

/-- Hands the arguments over as they are. -/
def handOver (args : List String) : Script (List String) fun _ => Unit :=
  .call args fun _ => .finish

/-- A console with such a command. -/
def tellAllConsole : Console (List String) fun _ => Unit :=
  new.registerCommand "tell all" handOver

/-- Notes arguments behind those noted before. -/
def noteArgs (args : List String) : StateM (List (List String)) Unit :=
  modify (· ++ [args])

/-- What looks like a comment, a number or several words is one argument if it
stands in quotes, and the command is run once. -/
theorem exec_quoted_of_tellAll :
    tellAllConsole.commands.get? "tell all" = some handOver ∧
      Quotable "tell all" ∧
      (∀ a ∈ [(" \t ", "// no\tcomment"), ("\t", "7")], Gap a.1 ∧
        Quotable a.2) ∧
      Blank "\t " ∧ Blank " \n" ∧
      ((tellAllConsole.exec noteArgs
          "\t \"tell all\" \t \"// no\tcomment\"\t\"7\" \n").run []).2 =
        [["// no\tcomment", "7"]] := by
  have hget : tellAllConsole.commands.get? "tell all" = some handOver := rfl
  have hname : Quotable "tell all" := by decide
  have hargs : ∀ a ∈ [(" \t ", "// no\tcomment"), ("\t", "7")],
      Gap a.1 ∧ Quotable a.2 := by decide
  have hbefore : Blank "\t " := by decide
  have hafter : Blank " \n" := by decide
  have hline : "\t \"tell all\" \t \"// no\tcomment\"\t\"7\" \n" =
      "\t " ++ quoted "tell all" [(" \t ", "// no\tcomment"), ("\t", "7")] ++
        " \n" := by decide
  refine ⟨hget, hname, hargs, hbefore, hafter, ?_⟩
  rw [hline,
    exec_quoted noteArgs tellAllConsole (by decide) hget hname hargs
      hbefore hafter]
  rfl

end

end ResourceHost.Console
