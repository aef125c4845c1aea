import ResourceHost.Console.Basic

/-!
# What a line does to variables

A console line reaches variables in two ways: as the name of a variable with
words after it, or through the script of a command.  Whichever way it goes, a
line that fails leaves all variables as they were, and one that succeeds changes
the value of no variable that its words do not assign.

This is told of consoles on which `set` alone sets variables: all other commands
are silent.  What the services answer does not matter.
-/

namespace ResourceHost.Console

/-! ### Assigning -/

namespace Cvars

variable {vs : Cvars} {name n : String} {value : Value}

/-- To assign fails and changes nothing, or it sets a variable that may be
set. -/
theorem assign_cases (vs : Cvars) (name : String) (value : Value) :
    (∃ f, assign vs name value = (.error f, vs)) ∨
      ∃ v, Table.get? vs name = some v ∧ v.isReadOnly = false ∧
        assign vs name value =
          (.ok (), Table.put vs name { v with value := value }) := by
  unfold assign
  cases hv : Table.get? vs name with
  | none => exact .inl ⟨_, rfl⟩
  | some v =>
    cases hw : v.isReadOnly with
    | true => exact .inl ⟨_, if_pos hw⟩
    | false => exact .inr ⟨v, rfl, hw, if_neg (by simp [hw])⟩

theorem assign_of_free {v : Cvar} (hv : Table.get? vs name = some v)
    (hfree : v.isReadOnly = false) (value : Value) :
    assign vs name value = (.ok (),
      Table.put vs name { v with value := value }) := by
  simp [assign, hv, hfree]

theorem assign_of_error {f : Failure}
    (h : (assign vs name value).1 = .error f) :
    (assign vs name value).2 = vs := by
  obtain ⟨f', h'⟩ | ⟨v, -, -, h'⟩ := assign_cases vs name value
  · rw [h']
  · rw [h'] at h
    cases h

theorem value?_assign_of_ne (hn : n ≠ name) :
    value? (assign vs name value).2 n = value? vs n := by
  obtain ⟨f, h⟩ | ⟨v, -, -, h⟩ := assign_cases vs name value
  · rw [h]
  · rw [h, value?, value?, Table.get?_put_of_ne _ hn]

/-- A variable that is assigned was there before. -/
theorem isSome_value?_assign :
    (value? (assign vs name value).2 n).isSome = (value? vs n).isSome := by
  by_cases hn : n = name
  · subst hn
    obtain ⟨f, h⟩ | ⟨v, hv, -, h⟩ := assign_cases vs n value
    · rw [h]
    · simp [h, value?, hv]
  · rw [value?_assign_of_ne hn]

end Cvars

/-- The words assign a variable: either by its name, or by the command that
sets. -/
def Assigns (ws : List String) (n : String) : Prop :=
  (∃ w rest, ws = n :: w :: rest) ∨ ∃ w rest, ws = "set" :: n :: w :: rest

theorem not_assigns_singleton (w n : String) : ¬ Assigns [w] n := by
  simp [Assigns]

theorem assigns_pair_iff {a b n : String} : Assigns [a, b] n ↔ a = n := by
  simp [Assigns]

theorem assigns_cons_iff {a b c n : String} {rest : List String} :
    Assigns (a :: b :: c :: rest) n ↔ a = n ∨ a = "set" ∧ b = n := by
  simp [Assigns]

instance (ws : List String) (n : String) : Decidable (Assigns ws n) :=
  match ws with
  | [] => .isFalse (by simp [Assigns])
  | [w] => .isFalse (not_assigns_singleton w n)
  | [_, _] => decidable_of_iff' _ assigns_pair_iff
  | _ :: _ :: _ :: _ => decidable_of_iff' _ assigns_cons_iff

/-- What words may do to variables: if they fail, nothing; otherwise at most to
assign those that they name. -/
structure Changed {α : Type} (ws : List String) (vs : Cvars)
    (result : Except Failure α) (vs' : Cvars) : Prop where
  failed : ∀ f, result = .error f → vs' = vs
  known : ∀ n, (Cvars.value? vs' n).isSome = (Cvars.value? vs n).isSome
  others : ∀ n, ¬ Assigns ws n → Cvars.value? vs' n = Cvars.value? vs n

theorem Changed.refl {α : Type} (ws : List String) (vs : Cvars)
    (result : Except Failure α) : Changed ws vs result vs :=
  ⟨fun _ _ => rfl, fun _ => rfl, fun _ _ => rfl⟩

/-- What is made of a result fails only if the result does. -/
theorem Changed.of_failed {α β : Type} {ws : List String} {vs vs' : Cvars}
    {result : Except Failure α} {result' : Except Failure β}
    (h : Changed ws vs result vs')
    (hfail : ∀ f, result' = .error f → ∃ f', result = .error f') :
    Changed ws vs result' vs' where
  failed f hf :=
    have ⟨f', hf'⟩ := hfail f hf
    h.failed f' hf'
  known := h.known
  others := h.others

/-- One variable that the words assign is set, and what is made of the result
fails with it. -/
theorem Changed.of_assign {α : Type} {ws : List String} {vs : Cvars}
    {name : String} {value : Value} {result : Except Failure α}
    (hname : Assigns ws name)
    (hfail : ∀ f, result = .error f → (Cvars.assign vs name value).1 =
      .error f) : Changed ws vs result (Cvars.assign vs name value).2 where
  failed f hf := Cvars.assign_of_error (hfail f hf)
  known _ := Cvars.isSome_value?_assign
  others _ hn := Cvars.value?_assign_of_ne fun heq => hn (heq ▸ hname)

/-! ### Scripts -/

namespace Script

variable {S : Type} {R : S → Type}

/-- Whatever the services answer, the script ends with what satisfies `Q`. -/
def Ensures (Q : Except Failure Unit → Cvars → Prop) : Script S R → Cvars → Prop
  | .stop result, vs => Q result vs
  | .print _ next, vs => next.Ensures Q vs
  | .get name next, vs => (next (Cvars.value? vs name)).Ensures Q vs
  | .list next, vs => (next (Table.pairs vs)).Ensures Q vs
  | .set name value next, vs =>
    (next (Cvars.assign vs name value).1).Ensures Q
      (Cvars.assign vs name value).2
  | .call _ next, vs => ∀ a, (next a).Ensures Q vs

/-- Sets no variable, and calls only services of which `C` is true. -/
def Silent (C : S → Prop) : Script S R → Prop
  | .stop _ => True
  | .print _ next => next.Silent C
  | .get _ next => ∀ value, (next value).Silent C
  | .list next => ∀ pairs, (next pairs).Silent C
  | .set _ _ _ => False
  | .call service next => C service ∧ ∀ a, (next a).Silent C

variable {C : S → Prop}

theorem Silent.ensures {script : Script S R} (h : script.Silent C)
    (vs : Cvars) : script.Ensures (fun _ vs' => vs' = vs) vs := by
  induction script with
  | stop result => rfl
  | print line next ih => exact ih h
  | get name next ih => exact ih _ (h _)
  | list next ih => exact ih _ (h _)
  | set name value next ih => exact h.elim
  | call service next ih => exact fun a => ih a (h.2 a)

theorem Ensures.mono {Q Q' : Except Failure Unit → Cvars → Prop}
    {script : Script S R} {vs : Cvars} (h : script.Ensures Q vs)
    (hQ : ∀ result vs', Q result vs' → Q' result vs') :
    script.Ensures Q' vs := by
  induction script generalizing vs with
  | stop result => exact hQ _ _ h
  | print line next ih => exact ih h
  | get name next ih => exact ih _ h
  | list next ih => exact ih _ h
  | set name value next ih => exact ih _ h
  | call service next ih => exact fun a => ih a (h a)

theorem Silent.printAll {next : Script S R} (h : next.Silent C)
    (lines : List String) : (printAll lines next).Silent C := by
  induction lines with
  | nil => exact h
  | cons line rest ih => exact ih

theorem Silent.orFail {α : Type} {result : Except Failure α}
    {next : α → Script S R} (h : ∀ a, (next a).Silent C) :
    (orFail result next).Silent C := by
  cases result with
  | ok a => exact h a
  | error f => exact trivial

end Script

section

variable {S : Type} {R : S → Type}

theorem echo_silent (C : S → Prop) (args : List String) :
    (echo args : Script S R).Silent C :=
  trivial

theorem cvarlist_silent (C : S → Prop) (args : List String) :
    (cvarlist args : Script S R).Silent C :=
  fun _ => Script.Silent.printAll
    (show (Script.finish : Script S R).Silent C from trivial) _

/-- With a name and words behind it, `set` comes to what assigning comes to. -/
theorem setCommand_ensures_assign {Q : Except Failure Unit → Cvars → Prop}
    {vs : Cvars} {name word : String} {rest : List String}
    (h : Q (Cvars.assign vs name (Value.parse (unwords (word :: rest)))).1
      (Cvars.assign vs name (Value.parse (unwords (word :: rest)))).2) :
    (setCommand (name :: word :: rest) : Script S R).Ensures Q vs := by
  simp only [setCommand, Script.Ensures]
  cases hset : (Cvars.assign vs name
    (Value.parse (unwords (word :: rest)))).1 with
  | ok u =>
    rw [hset] at h
    exact h
  | error f =>
    rw [hset] at h
    exact h

theorem setCommand_ensures (args : List String) (vs : Cvars) :
    (setCommand args : Script S R).Ensures (Changed ("set" :: args) vs) vs := by
  match args with
  | [] => exact .refl _ vs _
  | [_] => exact .refl _ vs _
  | name :: word :: rest =>
    have hname : Assigns ("set" :: name :: word :: rest) name :=
      .inr ⟨word, rest, rfl⟩
    exact setCommand_ensures_assign (.of_assign hname fun _ hf => hf)

/-! ### Consoles -/

/-- Only `set` sets variables; any other command calls only services that it
may. -/
def Tame (C : String → S → Prop) (k : Console S R) : Prop :=
  ∀ name command, k.commands.get? name = some command →
    (∀ args, (command args).Silent (C name)) ∨
    name = "set" ∧ command = setCommand

variable {C : String → S → Prop} {k : Console S R}

theorem Tame.ensures (hk : k.Tame C) {name : String}
    {command : List String → Script S R}
    (hc : k.commands.get? name = some command) (args : List String) :
    (command args).Ensures (Changed (name :: args) k.cvars) k.cvars := by
  rcases hk name command hc with hsilent | ⟨rfl, rfl⟩
  · refine ((hsilent args).ensures k.cvars).mono fun result vs' heq => ?_
    rw [heq]
    exact .refl _ _ _
  · exact setCommand_ensures args k.cvars

/-- A line that names no command assigns the variable that it names, if any. -/
theorem execCvar_changed (k : Console S R) (name : String)
    (args : List String) :
    Changed (name :: args) k.cvars (k.execCvar name args).1
      (k.execCvar name args).2.cvars := by
  unfold execCvar
  split
  · exact .refl _ _ _
  · split
    · exact .refl _ _ _
    · rename_i hargs
      obtain ⟨w, rest, rfl⟩ : ∃ w rest, args = w :: rest :=
        List.exists_cons_of_ne_nil (by simpa using hargs)
      have hname : Assigns (name :: w :: rest) name := .inl ⟨w, rest, rfl⟩
      simp only [setCvar]
      cases hset : (Cvars.assign k.cvars name
        (Value.parse (unwords (w :: rest)))).1 with
      | ok u => exact .of_assign hname nofun
      | error f =>
        exact .of_assign hname fun f' hf' => hset.trans (by cases hf'; rfl)

theorem commands_execCvar (k : Console S R) (name : String)
    (args : List String) : (k.execCvar name args).2.commands = k.commands := by
  unfold execCvar
  split
  · rfl
  · split <;> rfl

/-! ### Lines -/

/-- What a line asks for: its words, none if it is blank or a comment. -/
def asked (line : String) : List String :=
  if Text.trim line = "" || isComment (Text.trim line).toList then []
  else words (Text.trim line)

/-- To execute a line is to execute what it asks for, up to the history. -/
theorem exists_exec_eq {m : Type → Type} [Monad m] (serve : (s : S) → m (R s))
    (k : Console S R) (line : String) :
    ∃ k' : Console S R, k'.cvars = k.cvars ∧ k'.commands = k.commands ∧
      k.exec serve line = k'.execWords serve (asked line) := by
  unfold exec asked
  dsimp only
  split
  · exact ⟨k, rfl, rfl, rfl⟩
  · exact ⟨k.remember (Text.trim line), rfl, rfl, rfl⟩

end

end ResourceHost.Console
