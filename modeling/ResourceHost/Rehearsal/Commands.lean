import ResourceHost.Console.Basic

/-!
# Commands to try a console with

Commands that need nothing besides the console itself: one shows its
arguments, one fails, and one reads a variable and sets it.
-/

namespace ResourceHost.Rehearsal

/-- What commands without services are answered: nothing, as they ask for
nothing. -/
abbrev NoReply (s : Empty) : Type := s.elim

/-- A script without services. -/
abbrev PlainScript := Console.Script Empty NoReply

/-- A console whose commands have no services. -/
abbrev PlainConsole := Console Empty NoReply

/-- A command to try a console with. -/
inductive Trick where
  | showArgs
  | fail
  | readAndSet
  deriving DecidableEq, Repr

namespace Trick

/-- Prints the number of arguments and the arguments. -/
def printArgs (args : List String) : PlainScript :=
  .print (Decimal.ofNat args.length ++ "|" ++ "|".intercalate args) .finish

/-- Prints a line and fails. -/
def printAndFail (args : List String) : PlainScript :=
  .print "before failing"
    (.fail (.told ("failed with " ++ Decimal.ofNat args.length ++ " args")))

/-- Prints the new value of a variable. -/
def showNew (name : String) : PlainScript :=
  .get name fun value =>
    .print ("new " ++ (value.map Console.Value.display).getD "none") .finish

/-- Prints the variable that the first argument names, and sets it to what the
second argument writes. -/
def printAndSet (args : List String) : PlainScript :=
  let name := args.headD ""
  .get name fun value =>
    .print ("old " ++ (value.map Console.Value.asText).getD "none")
      (match args.tail with
        | [] => .finish
        | word :: _ =>
          .set name (Console.Value.parse word) fun result =>
            .orFail result fun _ => showNew name)

/-- The command of a trick. -/
def command : Trick → List String → PlainScript
  | .showArgs => printArgs
  | .fail => printAndFail
  | .readAndSet => printAndSet

end Trick

/-- Executes a line on a console without services. -/
def execPlain (c : PlainConsole) (line : String) :
    Except Failure (List String) × PlainConsole :=
  Id.run (c.exec (fun s => nomatch s) line)

end ResourceHost.Rehearsal
