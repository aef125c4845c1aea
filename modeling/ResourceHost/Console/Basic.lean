import ResourceHost.Console.Line
import ResourceHost.Console.Value
import ResourceHost.Failure
import ResourceHost.Table

/-!
# The console

A console has variables and commands and executes lines.  A command is a
script: it can print, read and set variables under the same rules as the
person at the console, and call services of whoever owns the console.  What a
failing command printed is lost; what it did to variables and through services
stays.
-/

namespace ResourceHost

namespace Console

/-- A console variable.  The bits of `flags` say how it may be used. -/
structure Cvar where
  value : Value
  initial : Value
  description : String
  flags : UInt32 := 0

/-- The flag of variables that are written to the configuration. -/
def archived : UInt32 := 1

/-- The flag of variables that cannot be set. -/
def readOnly : UInt32 := 2

/-- The flag of variables for development. -/
def develop : UInt32 := 4

/-- Whether a variable cannot be set. -/
def Cvar.isReadOnly (v : Cvar) : Bool := v.flags &&& readOnly == readOnly

/-- Console variables by name. -/
abbrev Cvars := Table String Cvar

namespace Cvars

/-- The value of a variable. -/
def value? (vs : Cvars) (name : String) : Option Value :=
  (Table.get? vs name).map (·.value)

/-- Sets a variable that is there and may be set. -/
def assign (vs : Cvars) (name : String) (value : Value) :
    Except Failure Unit × Cvars :=
  match Table.get? vs name with
  | none => (.error (.unknownCvar name), vs)
  | some v =>
    if v.isReadOnly then (.error (.readOnlyCvar name), vs)
    else (.ok (), Table.put vs name { v with value := value })

end Cvars

/-- What a command does, step by step.  `S` are the services it may call. -/
inductive Script (S : Type) (R : S → Type) : Type where
  | stop (result : Except Failure Unit)
  | print (line : String) (next : Script S R)
  | get (name : String) (next : Option Value → Script S R)
  | list (next : List (String × Cvar) → Script S R)
  | set (name : String) (value : Value)
      (next : Except Failure Unit → Script S R)
  | call (service : S) (next : R service → Script S R)

namespace Script

variable {S : Type} {R : S → Type}

/-- A script that is over and did well. -/
def finish : Script S R := .stop (.ok ())

/-- A script that fails. -/
def fail (f : Failure) : Script S R := .stop (.error f)

/-- Prints lines, one after another. -/
def printAll : List String → Script S R → Script S R
  | [], next => next
  | line :: rest, next => .print line (printAll rest next)

/-- Goes on with the value of a result, or fails. -/
def orFail {α : Type} (result : Except Failure α) (next : α → Script S R) :
    Script S R :=
  match result with
  | .ok a => next a
  | .error f => fail f

/-- Runs a script on variables.  Gives its result, the variables and the lines
printed, behind those printed before. -/
def run {m : Type → Type} [Monad m] (serve : (s : S) → m (R s)) :
    Script S R → Cvars → List String →
      m (Except Failure Unit × Cvars × List String)
  | .stop result, vs, out => pure (result, vs, out)
  | .print line next, vs, out => next.run serve vs (out ++ [line])
  | .get name next, vs, out => (next (Cvars.value? vs name)).run serve vs out
  | .list next, vs, out => (next (Table.pairs vs)).run serve vs out
  | .set name value next, vs, out =>
    let (result, vs') := Cvars.assign vs name value
    (next result).run serve vs' out
  | .call service next, vs, out => do
    let reply ← serve service
    (next reply).run serve vs out

end Script

/-! ### Built-in commands -/

/-- A variable and a value as they are printed. -/
def equation (name : String) (v : Value) : String := name ++ " = " ++ v.display

/-- A variable in the list of all. -/
def listing (name : String) (v : Cvar) : String :=
  "  " ++ name ++ " = " ++ v.value.display
    ++ " (default: " ++ v.initial.display ++ ") - " ++ v.description

variable {S : Type} {R : S → Type}

/-- Prints its arguments. -/
def echo (args : List String) : Script S R := .print (unwords args) .finish

/-- Lists the variables whose name begins with the first argument. -/
def cvarlist (args : List String) : Script S R :=
  .list fun pairs =>
    let shown :=
      pairs.filter fun p => (args.headD "").toList.isPrefixOf p.1.toList
    .printAll (sortTexts (shown.map fun p => listing p.1 p.2)) .finish

/-- Sets a variable to the value that the other arguments write. -/
def setCommand : List String → Script S R
  | name :: word :: rest =>
    let value := Value.parse (unwords (word :: rest))
    .set name value fun result => .orFail result fun _ =>
      .print (equation name value) .finish
  | _ => .fail (.usage "set <cvar> <value>")

end Console

/-- A console whose commands may call the services `S`. -/
structure Console (S : Type) (R : S → Type) where
  cvars : Console.Cvars := Table.empty
  commands : Table String (List String → Console.Script S R) := Table.empty
  history : List String := []

namespace Console

variable {S : Type} {R : S → Type}

/-- How many lines the history keeps. -/
def maxHistory : Nat := 100

/-- Adds a command, in place of one of the same name. -/
def registerCommand (c : Console S R) (name : String)
    (command : List String → Script S R) : Console S R :=
  { c with commands := c.commands.put name command }

/-- Adds a variable, in place of one of the same name. -/
def registerCvar (c : Console S R) (name : String) (value : Value)
    (description : String) (flags : UInt32) : Console S R :=
  { c with cvars := Table.put c.cvars name ⟨value, value, description, flags⟩ }

/-- A console with the built-in commands. -/
def new : Console S R :=
  ((({ : Console S R }.registerCommand "echo" echo).registerCommand
    "cvarlist" cvarlist).registerCommand
    "set" setCommand)

/-- The names of the commands in order. -/
def commandNames (c : Console S R) : List String := sortTexts c.commands.keys

/-- The value of a variable. -/
def getCvar (c : Console S R) (name : String) : Option Value :=
  Cvars.value? c.cvars name

/-- Sets a variable. -/
def setCvar (c : Console S R) (name : String) (value : Value) :
    Except Failure Unit × Console S R :=
  let (result, vs) := Cvars.assign c.cvars name value
  (result, { c with cvars := vs })

/-- Adds a line to the history, which keeps the latest. -/
def remember (c : Console S R) (line : String) : Console S R :=
  let history := c.history ++ [line]
  { c with history := history.drop (history.length - maxHistory) }

/-- Executes a line that names no command: a variable alone is printed, one
with a value is set. -/
def execCvar (c : Console S R) (name : String) (args : List String) :
    Except Failure (List String) × Console S R :=
  match c.getCvar name with
  | none => (.ok ["Unknown command: " ++ name], c)
  | some v =>
    if args.isEmpty then (.ok [equation name v], c)
    else
      let value := Value.parse (unwords args)
      let (result, c') := c.setCvar name value
      (result.map fun _ => [equation name value], c')

/-- Executes the words of a line. -/
def execWords {m : Type → Type} [Monad m] (serve : (s : S) → m (R s))
    (c : Console S R) :
    List String → m (Except Failure (List String) × Console S R)
  | [] => pure (.ok [], c)
  | name :: args =>
    if name = "help" then
      pure (.ok ["commands: " ++ ", ".intercalate c.commandNames], c)
    else
      match c.commands.get? name with
      | some command => do
        let (result, vs, out) ← (command args).run serve c.cvars []
        let answer :=
          Activity.explain (.runCommand name) (result.map fun _ => out)
        pure (answer, { c with cvars := vs })
      | none => pure (c.execCvar name args)

/-- Executes a line and gives what it printed.  Blank lines and comments do
nothing; all others go into the history before anything else happens. -/
def exec {m : Type → Type} [Monad m] (serve : (s : S) → m (R s))
    (c : Console S R) (line : String) :
    m (Except Failure (List String) × Console S R) :=
  let line := Text.trim line
  if line = "" || isComment line.toList then pure (.ok [], c)
  else (c.remember line).execWords serve (words line)

end Console

end ResourceHost
