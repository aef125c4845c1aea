import ResourceHost.Proofs.Console.Lines

/-!
# Writes to variables are confined

Variables can be written from four places: the command that sets, a line that
begins with the name of a variable, the script of any other command, and the
owner of the console.  All of them assign, so that whatever lines are executed
and whatever commands there are, the same variables stay, each with all but its
value, and a variable that is read-only with its value.  A line that the console
answers itself changes at most the value of the variable that it names, and
nothing if it fails.
-/

namespace ResourceHost.Console

/-! ### What may become of variables -/

/-- What may become of a variable: it has another value at most, and not even
that if it is read-only, whatever other flags it has. -/
structure Cvar.Becomes (v v' : Cvar) : Prop where
  initial : v'.initial = v.initial
  description : v'.description = v.description
  flags : v'.flags = v.flags
  value : v.flags &&& readOnly = readOnly → v'.value = v.value

theorem isReadOnly_iff {v : Cvar} :
    v.isReadOnly = true ↔ v.flags &&& readOnly = readOnly := by
  simp [Cvar.isReadOnly]

theorem Cvar.Becomes.refl (v : Cvar) : v.Becomes v :=
  ⟨rfl, rfl, rfl, fun _ => rfl⟩

theorem Cvar.Becomes.trans {u v w : Cvar} (h : u.Becomes v) (h' : v.Becomes w) :
    u.Becomes w where
  initial := h'.initial.trans h.initial
  description := h'.description.trans h.description
  flags := h'.flags.trans h.flags
  value hu := (h'.value (by rw [h.flags]; exact hu)).trans (h.value hu)

namespace Cvars

/-- The same variables, in the same order, each as it was up to what may become
of it. -/
structure Confined (vs vs' : Cvars) : Prop where
  names : Table.keys vs' = Table.keys vs
  becomes : ∀ name v, Table.get? vs name = some v →
    ∃ v', Table.get? vs' name = some v' ∧ v.Becomes v'

variable {vs vs' vs'' : Cvars} {name : String} {v : Cvar}

theorem Confined.refl (vs : Cvars) : Confined vs vs :=
  ⟨rfl, fun _ v hv => ⟨v, hv, .refl v⟩⟩

theorem Confined.trans (h : Confined vs vs') (h' : Confined vs' vs'') :
    Confined vs vs'' where
  names := h'.names.trans h.names
  becomes name v hv := by
    obtain ⟨v', hv', hbecomes⟩ := h.becomes name v hv
    obtain ⟨v'', hv'', hbecomes'⟩ := h'.becomes name v' hv'
    exact ⟨v'', hv'', hbecomes.trans hbecomes'⟩

/-- To give another value to a variable that is there and may be set. -/
theorem confined_put (hv : Table.get? vs name = some v)
    (hfree : v.isReadOnly = false) (value : Value) :
    Confined vs (Table.put vs name { v with value := value }) where
  names := by
    have hknown : name ∈ (Table.pairs vs).map (·.1) := Table.mem_keys_of_get? hv
    rw [Table.keys, Table.put, Table.keys_enter, if_pos hknown, Table.keys]
  becomes n w hw := by
    by_cases hn : n = name
    · subst hn
      rw [hv] at hw
      cases hw
      refine ⟨_, Table.get?_put_self .., rfl, rfl, rfl, fun hflag => ?_⟩
      rw [isReadOnly_iff.2 hflag] at hfree
      cases hfree
    · exact ⟨w, by rw [Table.get?_put_of_ne vs hn, hw], .refl w⟩

theorem confined_assign (vs : Cvars) (name : String) (value : Value) :
    Confined vs (assign vs name value).2 := by
  obtain ⟨f, h⟩ | ⟨v, hv, hfree, h⟩ := assign_cases vs name value
  · rw [h]
    exact .refl vs
  · rw [h]
    exact confined_put hv hfree value

/-- What a line may do that names a variable, or none: nothing if it fails, and
otherwise at most to set that variable, if it may be set. -/
structure Settled {α : Type} (named : Option String) (vs : Cvars)
    (result : Except Failure α) (vs' : Cvars) : Prop where
  failed : ∀ f, result = .error f → vs' = vs
  done : ∀ a, result = .ok a → vs' = vs ∨
    ∃ name v value, named = some name ∧ Table.get? vs name = some v ∧
      v.isReadOnly = false ∧
      vs' = Table.put vs name { v with value := value }

section

variable {α β : Type} {named : Option String} {result : Except Failure α}
  {result' : Except Failure β}

theorem Settled.refl (named : Option String) (vs : Cvars)
    (result : Except Failure α) : Settled named vs result vs :=
  ⟨fun _ _ => rfl, fun _ _ => .inl rfl⟩

/-- Only that a result fails matters, not how. -/
theorem Settled.of_isOk (h : Settled named vs result vs')
    (hok : result'.isOk = result.isOk) : Settled named vs result' vs' := by
  cases result with
  | error f =>
    rw [h.failed f rfl]
    exact .refl named vs result'
  | ok a =>
    refine ⟨fun f hf => ?_, fun _ _ => h.done a rfl⟩
    rw [hf] at hok
    cases hok

theorem settled_assign (vs : Cvars) (name : String) (value : Value) :
    Settled (some name) vs (assign vs name value).1
      (assign vs name value).2 := by
  obtain ⟨f, h⟩ | ⟨v, hv, hfree, h⟩ := assign_cases vs name value
  · rw [h]
    exact .refl _ vs _
  · rw [h]
    exact ⟨nofun, fun _ _ => .inr ⟨name, v, value, rfl, hv, hfree, rfl⟩⟩

end

end Cvars

theorem isOk_map {α β : Type} (f : α → β) (result : Except Failure α) :
    (result.map f).isOk = result.isOk := by
  cases result <;> rfl

theorem isOk_explain {α : Type} (what : Activity) (result : Except Failure α) :
    (what.explain result).isOk = result.isOk := by
  cases result <;> rfl

/-! ### Scripts -/

section

variable {S : Type} {R : S → Type}

open Cvars

/-- Whatever a script does, it does to variables by assigning. -/
theorem Script.ensures_confined {vs₀ vs : Cvars} (h : Confined vs₀ vs)
    (script : Script S R) :
    script.Ensures (fun _ vs' => Confined vs₀ vs') vs := by
  induction script generalizing vs with
  | stop result => exact h
  | print line next ih => exact ih h
  | get name next ih => exact ih _ h
  | list next ih => exact ih _ h
  | set name value next ih =>
    exact ih _ (h.trans (confined_assign vs name value))
  | call service next ih => exact fun a => ih a h

theorem setCommand_settled (args : List String) (vs : Cvars) :
    (setCommand args : Script S R).Ensures (Settled args.head? vs) vs := by
  match args with
  | [] => exact .refl _ vs _
  | [_] => exact .refl _ vs _
  | name :: word :: rest =>
    exact setCommand_ensures_assign (settled_assign vs name _)

/-! ### Runs of a script -/

variable {σ : Type} (serve : (s : S) → StateM σ (R s))

/-- What a script ensures whatever the services answer, it comes to where
services keep a state of their own. -/
theorem Script.Ensures.run {Q : Except Failure Unit → Cvars → Prop}
    {script : Script S R} {vs : Cvars} (h : script.Ensures Q vs)
    (out : List String) (w : σ) :
    Q ((script.run serve vs out).run w).1.1
      ((script.run serve vs out).run w).1.2.1 := by
  induction script generalizing vs out w with
  | stop result => exact h
  | print line next ih => exact ih h _ w
  | get name next ih => exact ih _ h out w
  | list next ih => exact ih _ h out w
  | set name value next ih => exact ih _ h out w
  | call service next ih => exact ih _ (h _) out _

/-! ### Lines that the console answers itself -/

/-- Words that are answered by a command that every console has, or by no
command, with the variable that they name. -/
inductive BuiltIn (k : Console S R) : List String → Option String → Prop where
  | help (args : List String) : BuiltIn k ("help" :: args) none
  | echo (args : List String) (h : k.commands.get? "echo" = some echo) :
    BuiltIn k ("echo" :: args) none
  | cvarlist (args : List String)
    (h : k.commands.get? "cvarlist" = some cvarlist) :
    BuiltIn k ("cvarlist" :: args) none
  | set (args : List String) (h : k.commands.get? "set" = some setCommand) :
    BuiltIn k ("set" :: args) args.head?
  | cvar (name : String) (args : List String) (hhelp : name ≠ "help")
    (h : k.commands.get? name = none) : BuiltIn k (name :: args) (some name)

variable {k : Console S R} {ws : List String} {named : Option String}

theorem execCvar_settled (k : Console S R) (name : String)
    (args : List String) :
    Settled (some name) k.cvars (k.execCvar name args).1
      (k.execCvar name args).2.cvars := by
  unfold execCvar
  split
  · exact .refl _ _ _
  · split
    · exact .refl _ _ _
    · exact (settled_assign _ _ _).of_isOk (isOk_map _ _)

/-- The answer of a command fails exactly if its script does. -/
theorem settled_execWords_command {name : String}
    {command : List String → Script S R} {args : List String}
    (hhelp : name ≠ "help") (hc : k.commands.get? name = some command)
    (h : (command args).Ensures (Settled named k.cvars) k.cvars) (w : σ) :
    Settled named k.cvars ((k.execWords serve (name :: args)).run w).1.1
      ((k.execWords serve (name :: args)).run w).1.2.cvars := by
  have hrun := h.run serve [] w
  rw [execWords, if_neg hhelp, hc]
  refine hrun.of_isOk ?_
  exact (isOk_explain _ _).trans (isOk_map _ _)

theorem BuiltIn.congr {k' : Console S R} (h : BuiltIn k ws named)
    (hcommands : k'.commands = k.commands) : BuiltIn k' ws named := by
  cases h with
  | help args => exact .help args
  | echo args h => exact .echo args (hcommands ▸ h)
  | cvarlist args h => exact .cvarlist args (hcommands ▸ h)
  | set args h => exact .set args (hcommands ▸ h)
  | cvar name args hhelp h => exact .cvar name args hhelp (hcommands ▸ h)

theorem BuiltIn.settled (h : BuiltIn k ws named) (w : σ) :
    Settled named k.cvars ((k.execWords serve ws).run w).1.1
      ((k.execWords serve ws).run w).1.2.cvars := by
  cases h with
  | help args => exact .refl _ _ _
  | echo args h =>
    refine settled_execWords_command serve (by decide) h ?_ w
    exact ((echo_silent (fun _ => True) args).ensures k.cvars).mono
      fun _ _ heq => heq ▸ .refl _ _ _
  | cvarlist args h =>
    refine settled_execWords_command serve (by decide) h ?_ w
    exact ((cvarlist_silent (fun _ => True) args).ensures k.cvars).mono
      fun _ _ heq => heq ▸ .refl _ _ _
  | set args h =>
    exact settled_execWords_command serve (by decide) h
      (setCommand_settled args k.cvars) w
  | cvar name args hhelp h =>
    rw [execWords, if_neg hhelp, h]
    exact execCvar_settled k name args

/-! ### Runs of a console -/

theorem confined_execWords (k : Console S R) (ws : List String) (w : σ) :
    Confined k.cvars ((k.execWords serve ws).run w).1.2.cvars := by
  cases ws with
  | nil => exact .refl k.cvars
  | cons name args =>
    rw [execWords]
    split
    · exact .refl k.cvars
    · cases hc : k.commands.get? name with
      | some command =>
        exact (Script.ensures_confined (.refl k.cvars) (command args)).run
          serve [] w
      | none =>
        show Confined k.cvars (k.execCvar name args).2.cvars
        unfold execCvar
        split
        · exact .refl k.cvars
        · split
          · exact .refl k.cvars
          · exact confined_assign k.cvars name _

theorem confined_exec (k : Console S R) (line : String) (w : σ) :
    Confined k.cvars ((k.exec serve line).run w).1.2.cvars := by
  obtain ⟨k', hcvars, -, hexec⟩ := exists_exec_eq serve k line
  rw [hexec, ← hcvars]
  exact confined_execWords serve k' (asked line) w

/-- What can be done with a console. -/
inductive Use where
  | exec (line : String)
  | setCvar (name : String) (value : Value)

/-- A console and the state of its services, after one use. -/
def Use.after : Use → Console S R × σ → Console S R × σ
  | .exec line, (k, w) =>
    (((k.exec serve line).run w).1.2, ((k.exec serve line).run w).2)
  | .setCvar name value, (k, w) => ((k.setCvar name value).2, w)

/-- A console and the state of its services, after uses one after another. -/
def afterAll (uses : List Use) (s : Console S R × σ) : Console S R × σ :=
  uses.foldl (fun s use => use.after serve s) s

theorem Use.confined (use : Use) (s : Console S R × σ) :
    Confined s.1.cvars (use.after serve s).1.cvars := by
  cases use with
  | exec line => exact confined_exec serve s.1 line s.2
  | setCvar name value => exact confined_assign s.1.cvars name value

theorem confined_afterAll (uses : List Use) (s : Console S R × σ) :
    Confined s.1.cvars (afterAll serve uses s).1.cvars := by
  induction uses generalizing s with
  | nil => exact .refl s.1.cvars
  | cons use uses ih =>
    exact (use.confined serve s).trans (ih (use.after serve s))

theorem settled_exec {line : String} (h : BuiltIn k (asked line) named)
    (w : σ) :
    Settled named k.cvars ((k.exec serve line).run w).1.1
      ((k.exec serve line).run w).1.2.cvars := by
  obtain ⟨k', hcvars, hcommands, hexec⟩ := exists_exec_eq serve k line
  rw [hexec, ← hcvars]
  exact (h.congr hcommands).settled serve w

/-- Whatever commands a console has, whatever they ask of services, and whatever
lines are executed and values set: the same variables stay, each with its name,
initial value, description and flags, and one that is read-only with its value.
After any such run, a line that the console answers itself changes nothing if it
fails, and if not, at most the value of the variable that it names. -/
theorem writes_confined {uses : List Use} {s s' : Console S R × σ}
    (h : afterAll serve uses s = s') :
    Confined s.1.cvars s'.1.cvars ∧
      ∀ line named, BuiltIn s'.1 (asked line) named →
        Settled named s'.1.cvars ((s'.1.exec serve line).run s'.2).1.1
          ((s'.1.exec serve line).run s'.2).1.2.cvars := by
  subst h
  exact ⟨confined_afterAll serve uses s,
    fun line named hown => settled_exec serve hown _⟩

end

/-! ### A command that tries to set a read-only variable -/

/-- Asks for a volume, sets it, and tries to set the boot package as well. -/
def turnCommand (_ : List String) : Script Unit fun _ => Int64 :=
  .call () fun (n : Int64) =>
    .set "volume" (.integer n) fun _ =>
      .set "boot.pkg" (.text "other") fun result =>
        .orFail result fun _ => .finish

/-- A console with the command, the boot package, which is read-only, and a
volume. -/
def bootReadOnly : Console Unit fun _ => Int64 :=
  ((new.registerCommand "turn" turnCommand).registerCvar
    "boot.pkg" (.text "boot") "Boot package"
      (readOnly ||| archived)).registerCvar
    "volume" (.integer 3) "Volume" archived

/-- Each volume is louder by one than the one before. -/
def louder (_ : Unit) : StateM Int64 Int64 := modifyGet fun n => (n + 1, n + 1)

/-- Tries to write the boot package in all ways. -/
def attempts : List Use :=
  [.exec "turn up", .exec "set boot.pkg \"other\"", .exec "boot.pkg other",
    .setCvar "boot.pkg" (.text "other"), .exec "volume 7"]

/-- The boot package keeps its value through all attempts while the volume is
set; one more attempt fails and changes nothing. -/
theorem writes_confined_of_bootReadOnly :
    ∃ s', afterAll louder attempts (bootReadOnly, 4) = s' ∧
      Cvars.Confined bootReadOnly.cvars s'.1.cvars ∧
      s'.1.getCvar "boot.pkg" = some (.text "boot") ∧
      s'.1.getCvar "volume" = some (.integer 7) ∧
      BuiltIn s'.1 (asked " set\tboot.pkg \"other\" ") (some "boot.pkg") ∧
      ((s'.1.exec louder " set\tboot.pkg \"other\" ").run s'.2).1.1 =
        .error (.during (.runCommand "set") (.readOnlyCvar "boot.pkg")) ∧
      ((s'.1.exec louder " set\tboot.pkg \"other\" ").run s'.2).1.2.cvars =
        s'.1.cvars := by
  refine ⟨_, rfl, ?_⟩
  have hown : BuiltIn (afterAll louder attempts (bootReadOnly, 4)).1
      (asked " set\tboot.pkg \"other\" ") (some "boot.pkg") :=
    .set ["boot.pkg", "other"] rfl
  have hfails : (((afterAll louder attempts (bootReadOnly, 4)).1.exec louder
      " set\tboot.pkg \"other\" ").run
    (afterAll louder attempts (bootReadOnly, 4)).2).1.1 =
      .error (.during (.runCommand "set") (.readOnlyCvar "boot.pkg")) := rfl
  obtain ⟨hconfined, hsettled⟩ :=
    writes_confined louder
      (rfl : afterAll louder attempts (bootReadOnly, 4) = _)
  exact ⟨hconfined, rfl, rfl, hown, hfails, (hsettled _ _ hown).failed _ hfails⟩

end ResourceHost.Console
