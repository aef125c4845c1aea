import ResourceHost.Proofs.Console.Lines
import ResourceHost.Proofs.Console.Values
import ResourceHost.Proofs.Console.Words

/-!
# Assignments

A variable can be assigned by a line that begins with its name, and by the
command that sets.  Both take the value from the same words, so that a line does
the same with `set` before it.

What is printed for a variable can be typed back behind its name.  But the
quotes in which a text is displayed are consumed when the line is cut into
words, and the type of a value is guessed only then: a text comes back exactly
if it is neither a number nor the word of a truth value.
-/

namespace ResourceHost.Console

/-! ### Words without blanks and quotes -/

/-- Neither blanks nor quotes. -/
def Plain (s : String) : Prop :=
  ∀ c ∈ s.toList, Text.isBlank c = false ∧ c ≠ '"'

instance (s : String) : Decidable (Plain s) :=
  List.decidableBAll (fun c => Text.isBlank c = false ∧ c ≠ '"') s.toList

theorem isBlank_of_isSeparator {c : Char} (h : isSeparator c = true) :
    Text.isBlank c = true := by
  simp only [isSeparator, Bool.or_eq_true, beq_iff_eq] at h
  rcases h with rfl | rfl <;> decide

theorem Plain.spells {s : String} (h : Plain s) : Spells s s := by
  apply spells_self
  intro c hc
  obtain ⟨hblank, hquote⟩ := h c hc
  refine ⟨hquote, ?_⟩
  cases hs : isSeparator c with
  | false => rfl
  | true =>
    rw [isBlank_of_isSeparator hs] at hblank
    cases hblank

theorem Plain.last {s : String} (h : Plain s) (c : Char)
    (hc : s.toList.getLast? = some c) : Text.isBlank c = false :=
  (h c (List.mem_of_getLast? hc)).1

theorem isBlank_of_isDigit {c : Char} (h : c.isDigit) :
    Text.isBlank c = false := by
  obtain ⟨hlow, hhigh⟩ := Decimal.isDigit_ascii h
  have hapart : ∀ r ∈ Text.blankRanges, r.2 < 48 ∨ 57 < r.1 := by decide
  rw [Text.isBlank, List.any_eq_false]
  intro r hr hin
  rw [Bool.and_eq_true, decide_eq_true_iff, decide_eq_true_iff] at hin
  rcases hapart r hr with hbelow | habove
  · omega
  · omega

theorem plain_ofNat (n : Nat) : Plain (Decimal.ofNat n) := by
  intro c hc
  rw [Decimal.ofNat, String.toList_ofList] at hc
  have hdigit := Decimal.isDigit_of_mem hc
  refine ⟨isBlank_of_isDigit hdigit, ?_⟩
  rintro rfl
  cases hdigit

theorem plain_ofInt (n : Int) : Plain (Decimal.ofInt n) := by
  cases n with
  | ofNat n => exact plain_ofNat n
  | negSucc n =>
    intro c hc
    rw [Decimal.ofInt, String.toList_append, List.mem_append] at hc
    rcases hc with hsign | hdigits
    · rw [List.mem_singleton.1 hsign]
      decide
    · exact plain_ofNat (n + 1) c hdigits

theorem plain_truthWord (b : Bool) : Plain (truthWord b) := by
  cases b <;> decide

/-! ### Values as they are displayed -/

namespace Value

variable {v : Value}

/-- A displayed value spells its text without quotes. -/
theorem spells_display (h : v.Quoteless) : Spells v.display v.asText := by
  cases v with
  | integer n => exact (plain_ofInt n.toInt).spells
  | real x => exact h.elim
  | text s => exact spells_quote h
  | truth b => exact (plain_truthWord b).spells

theorem display_ne_empty (h : v.Quoteless) : v.display ≠ "" := by
  cases v with
  | integer n => exact Decimal.ofInt_ne_empty n.toInt
  | real x => exact h.elim
  | text s => simp [display]
  | truth b => cases b <;> decide

theorem display_last (h : v.Quoteless) (c : Char)
    (hc : v.display.toList.getLast? = some c) : Text.isBlank c = false := by
  cases v with
  | integer n => exact (plain_ofInt n.toInt).last c hc
  | real x => exact h.elim
  | text s =>
    have hclose : (display (.text s)).toList = '"' :: s.toList ++ ['"'] := by
      simp [display]
    rw [hclose, List.getLast?_concat] at hc
    cases hc
    decide
  | truth b => exact (plain_truthWord b).last c hc

end Value

/-! ### The two forms of an assignment -/

section

variable {S : Type} {R : S → Type} {m : Type → Type} [Monad m]
  (serve : (s : S) → m (R s)) {k : Console S R} {name : String}
  {args : List String}

theorem execWords_of_known (hhelp : name ≠ "help")
    (hcommand : k.commands.get? name = none) :
    k.execWords serve (name :: args) = pure (k.execCvar name args) := by
  rw [execWords, if_neg hhelp, hcommand]

/-- No words behind the name of a variable: it is printed. -/
theorem execCvar_nil {v : Value} (hv : k.getCvar name = some v) :
    k.execCvar name [] = (.ok [equation name v], k) := by
  simp only [execCvar, hv, List.isEmpty_nil, if_true]

/-- Words behind the name of a variable write the value that is assigned to
it. -/
theorem execCvar_of_assign {result : Except Failure Unit} {vs : Cvars}
    (hknown : (k.getCvar name).isSome) (hargs : args ≠ [])
    (h : Cvars.assign k.cvars name (Value.parse (unwords args)) =
      (result, vs)) :
    k.execCvar name args =
      (result.map fun _ => [equation name (Value.parse (unwords args))],
        { k with cvars := vs }) := by
  obtain ⟨v, hv⟩ := Option.isSome_iff_exists.1 hknown
  have hsome : ¬ args.isEmpty = true := by simpa using hargs
  simp only [execCvar, hv, if_neg hsome, setCvar, h]

/-- Behind `set` they come to the same, up to what is said of a failure. -/
theorem execWords_set_of_assign [LawfulMonad m] {result : Except Failure Unit}
    {vs : Cvars} (hset : k.commands.get? "set" = some setCommand)
    (hargs : args ≠ [])
    (h : Cvars.assign k.cvars name (Value.parse (unwords args)) =
        (result, vs)) :
    k.execWords serve ("set" :: name :: args) =
      pure (Activity.explain (.runCommand "set")
        (result.map fun _ => [equation name (Value.parse (unwords args))]),
        { k with cvars := vs }) := by
  obtain ⟨word, rest, rfl⟩ := List.exists_cons_of_ne_nil hargs
  have hrun : (setCommand (name :: word :: rest)).run serve k.cvars [] =
      pure (result, vs, match result with
        | .ok _ => [equation name (Value.parse (unwords (word :: rest)))]
        | .error _ => []) := by
    simp only [setCommand, Script.run, h]
    cases result <;> rfl
  have hhelp : ("set" : String) ≠ "help" := by decide
  rw [execWords, if_neg hhelp, hset]
  dsimp only
  rw [hrun, pure_bind]
  cases result <;> rfl

/-- The word `set` before a line is cut off, and nothing else changes. -/
theorem words_set (line : String) :
    words ("set " ++ line) = "set" :: words line := by
  have hplain : Plain "set" := by decide
  have hgap : Gap " " := by decide
  have hfront : "set " = "set" ++ " " := by decide
  rw [hfront, words_of_spells_gap hplain.spells (by decide) hgap]

/-- A line that assigns does the same with `set` before it: both succeed, print
the same and leave the same variables, or both fail and leave the variables as
they were. -/
theorem forms_agree [LawfulMonad m] {line word : String} {rest : List String}
    (htrim : Text.trim line = line) (hne : line ≠ "")
    (hcomment : isComment line.toList = false)
    (hwords : words line = name :: word :: rest) (hhelp : name ≠ "help")
    (hcommand : k.commands.get? name = none) (hknown : (k.getCvar name).isSome)
    (hset : k.commands.get? "set" = some setCommand) :
    ∃ result result' k₁ k₂, k.exec serve line = pure (result, k₁) ∧
      k.exec serve ("set " ++ line) = pure (result', k₂) ∧
      ((∃ out, result = .ok out ∧ result' = .ok out ∧ k₁.cvars = k₂.cvars) ∨
        ∃ f f', result = .error f ∧ result' = .error f' ∧
          k₁.cvars = k.cvars ∧ k₂.cvars = k.cvars) := by
  have htight : Text.Tight ("set ".toList ++ line.toList) := by
    apply Text.tight_append (by decide) (by simpa using hne)
    · intro c hc
      cases hc
      decide
    · exact (Text.trim_eq_self_iff.1 htrim).last
  have htrim' : Text.trim ("set " ++ line) = "set " ++ line := by
    rw [Text.trim_eq_self_iff, String.toList_append]
    exact htight
  have hne' : "set " ++ line ≠ "" := by simp
  have hcomment' : isComment ("set " ++ line).toList = false := by
    rw [String.toList_append]
    rfl
  have hargs : word :: rest ≠ [] := by simp
  cases hassign : Cvars.assign k.cvars name
    (Value.parse (unwords (word :: rest))) with
  | mk result vs =>
    have hline := exec_of_trim serve k htrim hne hcomment
    rw [hwords, execWords_of_known (k := k.remember line) serve hhelp hcommand,
      execCvar_of_assign (k := k.remember line) hknown hargs hassign] at hline
    have hset' := exec_of_trim serve k htrim' hne' hcomment'
    rw [words_set, hwords,
      execWords_set_of_assign (k := k.remember ("set " ++ line)) serve hset
        hargs hassign] at hset'
    rw [hline, hset']
    refine ⟨_, _, _, _, rfl, rfl, ?_⟩
    cases result with
    | ok u => exact .inl ⟨_, rfl, rfl, rfl⟩
    | error f =>
      have hsame : vs = k.cvars := by
        have h := Cvars.assign_of_error (congrArg Prod.fst hassign)
        rwa [hassign] at h
      exact .inr ⟨_, _, rfl, rfl, hsame, hsame⟩

/-! ### Typing back what was printed -/

/-- A name that can be typed as it is: it is not empty, has neither blanks nor
quotes and does not look like a comment. -/
structure Typeable (name : String) : Prop where
  ne_empty : name ≠ ""
  plain : Plain name
  no_comment : isComment name.toList = false

theorem Typeable.tight (h : Typeable name) : Text.Tight name.toList where
  first c hc := (h.plain c (List.mem_of_head? hc)).1
  last := h.plain.last

theorem isComment_append {cs : List Char} (hne : cs ≠ [])
    (h : isComment cs = false) (ds : List Char) :
    isComment (cs ++ ' ' :: ds) = false := by
  match cs with
  | [c] =>
    unfold isComment
    split
    · rename_i heq
      cases heq
    · rfl
  | c :: d :: cs =>
    unfold isComment at h ⊢
    split
    · rename_i heq
      cases heq
      cases h
    · rfl

/-- The name of a variable alone has it printed. -/
theorem exec_name (hname : Typeable name) (hhelp : name ≠ "help")
    (hcommand : k.commands.get? name = none) {v : Value}
    (hv : k.getCvar name = some v) :
    k.exec serve name = pure (.ok [equation name v], k.remember name) := by
  have hexec := exec_of_trim serve k (Text.trim_eq_self_iff.2 hname.tight)
    hname.ne_empty
    hname.no_comment
  rw [hexec, words_of_spells hname.plain.spells, if_neg hname.ne_empty,
    execWords_of_known (k := k.remember name) serve hhelp hcommand,
    execCvar_nil (k := k.remember name) hv]

/-- Behind a name and a space stands one word at most. -/
theorem exec_name_text (hname : Typeable name) {text w : String}
    (hspells : Spells text w) (hne : text ≠ "")
    (hlast : ∀ c, text.toList.getLast? = some c → Text.isBlank c = false) :
    k.exec serve (name ++ " " ++ text) =
      (k.remember (name ++ " " ++ text)).execWords serve
        (name :: if w = "" then [] else [w]) := by
  have hgap : Gap " " := by decide
  have hchars : name.toList ≠ [] := by simpa using hname.ne_empty
  have htext : text.toList ≠ [] := by simpa using hne
  have hcut : (name ++ " " ++ text).toList =
      name.toList ++ ' ' :: text.toList := by simp
  have htight : Text.Tight (name ++ " " ++ text).toList := by
    rw [hcut]
    apply Text.tight_append hchars (by simp) hname.tight.first
    rw [List.getLast?_cons_of_ne_nil htext]
    exact hlast
  have hcomment : isComment (name ++ " " ++ text).toList = false := by
    rw [hcut]
    exact isComment_append hchars hname.no_comment text.toList
  rw [exec_of_trim serve k (Text.trim_eq_self_iff.2 htight) (by simp [hne])
      hcomment,
    words_of_spells_gap hname.plain.spells hname.ne_empty hgap,
    words_of_spells hspells]

/-- If that word is not empty, its value is assigned. -/
theorem exec_name_word (hname : Typeable name) (hhelp : name ≠ "help")
    (hcommand : k.commands.get? name = none) {v : Cvar}
    (hv : Table.get? k.cvars name = some v) (hfree : v.isReadOnly = false)
    {text w : String} (hspells : Spells text w) (hw : w ≠ "") (hne : text ≠ "")
    (hlast : ∀ c, text.toList.getLast? = some c → Text.isBlank c = false) :
    ∃ k', k.exec serve (name ++ " " ++ text) =
        pure (.ok [equation name (Value.parse w)], k') ∧
      k'.getCvar name = some (Value.parse w) := by
  have hknown : (k.getCvar name).isSome := by simp [getCvar, Cvars.value?, hv]
  have hone : unwords [w] = w := String.intercalate_singleton
  have hassign := Cvars.assign_of_free hv hfree (Value.parse (unwords [w]))
  rw [exec_name_text serve hname hspells hne hlast, if_neg hw,
    execWords_of_known (k := k.remember _) serve hhelp hcommand,
    execCvar_of_assign (k := k.remember _) hknown (by simp) hassign, hone]
  exact ⟨_, rfl, by simp [getCvar, Cvars.value?]⟩

/-- The name of a variable alone prints its value, and what is printed can be
typed behind the name: the variable then holds the value that it held, unless
this is a text that is a number or the word of a truth value. -/
theorem typed_back (hname : Typeable name) (hhelp : name ≠ "help")
    (hcommand : k.commands.get? name = none) {v : Cvar}
    (hv : Table.get? k.cvars name = some v) (hfree : v.isReadOnly = false)
    (hquoteless : v.value.Quoteless) :
    k.exec serve name = pure (.ok [name ++ " = " ++ v.value.display],
        k.remember name) ∧
      ∃ out k',
        k.exec serve (name ++ " " ++ v.value.display) = pure (.ok out, k') ∧
        (k'.getCvar name = some v.value ↔ v.value.ReadsBack) := by
  have hget : k.getCvar name = some v.value := by
    simp [getCvar, Cvars.value?, hv]
  have hspells := Value.spells_display hquoteless
  have hne := Value.display_ne_empty hquoteless
  have hlast := Value.display_last hquoteless
  refine ⟨exec_name serve hname hhelp hcommand hget, ?_⟩
  by_cases hempty : v.value.asText = ""
  · -- Of an empty text nothing is left to assign: the line prints the variable
    -- once more.
    have hexec := exec_name_text (k := k) serve hname hspells hne hlast
    rw [if_pos hempty,
      execWords_of_known (k := k.remember _) serve hhelp hcommand,
      execCvar_nil (k := k.remember _) hget] at hexec
    exact ⟨_, _, hexec,
      iff_of_true hget (Value.readsBack_of_asText_empty hempty)⟩
  · obtain ⟨k', hexec, hk'⟩ :=
      exec_name_word serve hname hhelp hcommand hv hfree hspells hempty
        hne hlast
    refine ⟨_, k', hexec, ?_⟩
    rw [hk', Option.some.injEq]
    exact Value.parse_asText_iff hquoteless

end

/-- A console with two variables that lines can set, and one that they
cannot. -/
def threeCvars : Console Unit fun _ => Unit :=
  ((new.registerCvar
    "title" (.text "Café // 7\tup") "Title" archived).registerCvar
    "track" (.text "007") "Track" develop).registerCvar
    "boot.pkg" (.text "boot") "Boot package" readOnly

/-- A service that counts how often it is called. -/
def tick (_ : Unit) : StateM Nat Unit := modify (· + 1)

/-- Both forms fail on a variable that is read-only, also where a quote is never
closed. -/
theorem forms_agree_of_threeCvars :
    Text.trim "boot.pkg 1\"2 3" = "boot.pkg 1\"2 3" ∧
      isComment "boot.pkg 1\"2 3".toList = false ∧
      words "boot.pkg 1\"2 3" = ["boot.pkg", "12 3"] ∧
      threeCvars.commands.get? "boot.pkg" = none ∧
      (threeCvars.getCvar "boot.pkg").isSome ∧
      threeCvars.commands.get? "set" = some setCommand ∧
      ∃ result result' k₁ k₂,
        threeCvars.exec tick "boot.pkg 1\"2 3" = pure (result, k₁) ∧
        threeCvars.exec tick ("set " ++ "boot.pkg 1\"2 3") =
          pure (result', k₂) ∧
        ((∃ out, result = .ok out ∧ result' = .ok out ∧ k₁.cvars = k₂.cvars) ∨
          ∃ f f', result = .error f ∧ result' = .error f' ∧
            k₁.cvars = threeCvars.cvars ∧ k₂.cvars = threeCvars.cvars) := by
  have htrim : Text.trim "boot.pkg 1\"2 3" = "boot.pkg 1\"2 3" := by decide
  have hcomment : isComment "boot.pkg 1\"2 3".toList = false := by decide
  have hwords : words "boot.pkg 1\"2 3" = ["boot.pkg", "12 3"] := by decide
  exact ⟨htrim, hcomment, hwords, rfl, rfl, rfl,
    forms_agree tick htrim (by decide) hcomment hwords (by decide) rfl rfl rfl⟩

/-- A text with blanks, a tab and what looks like a comment is typed back. -/
theorem typed_back_of_threeCvars :
    Typeable "title" ∧ threeCvars.commands.get? "title" = none ∧
      Table.get? threeCvars.cvars "title" =
        some ⟨.text "Café // 7\tup", .text "Café // 7\tup", "Title",
          archived⟩ ∧
      (Value.text "Café // 7\tup").Quoteless ∧
      (Value.text "Café // 7\tup").ReadsBack ∧
      ∃ out k', threeCvars.exec tick ("title" ++ " " ++ "\"Café // 7\tup\"") =
          pure (.ok out, k') ∧
        k'.getCvar "title" = some (.text "Café // 7\tup") := by
  have hname : Typeable "title" := ⟨by decide, by decide, by decide⟩
  have hquoteless : (Value.text "Café // 7\tup").Quoteless := by
    show '"' ∉ "Café // 7\tup".toList
    decide
  have hback : (Value.text "Café // 7\tup").ReadsBack :=
    ⟨rfl, rfl, fun b => by cases b <;> decide⟩
  obtain ⟨-, out, k', hexec, hiff⟩ :=
    typed_back tick (k := threeCvars) hname (by decide) rfl rfl rfl hquoteless
  exact ⟨hname, rfl, rfl, hquoteless, hback, out, k', hexec, hiff.2 hback⟩

/-- A text that is a number comes back as that number, though it is printed in
quotes and typed with them. -/
theorem number_comes_back_for_text :
    Typeable "track" ∧ threeCvars.commands.get? "track" = none ∧
      Table.get? threeCvars.cvars "track" =
        some ⟨.text "007", .text "007", "Track", develop⟩ ∧
      (Value.text "007").Quoteless ∧
      ((threeCvars.exec tick "track").run 0).1.1 =
        .ok ["track = " ++ "\"007\""] ∧
      ((threeCvars.exec tick ("track" ++ " " ++ "\"007\"")).run 0).1.1 =
        .ok ["track = 7"] ∧
      ((threeCvars.exec tick ("track" ++ " " ++ "\"007\"")).run 0).1.2.getCvar
          "track" =
        some (.integer 7) ∧
      ((threeCvars.exec tick ("track" ++ " " ++ "\"007\"")).run 0).1.2.getCvar
          "track" ≠
        some (.text "007") := by
  have hname : Typeable "track" := ⟨by decide, by decide, by decide⟩
  have hquoteless : (Value.text "007").Quoteless := by
    show '"' ∉ "007".toList
    decide
  have hafter : ((threeCvars.exec tick ("track" ++ " " ++ "\"007\"")).run
        0).1.2.getCvar "track" =
      some (.integer 7) := rfl
  refine ⟨hname, rfl, rfl, hquoteless, rfl, rfl, hafter, ?_⟩
  rw [hafter]
  nofun

end ResourceHost.Console
