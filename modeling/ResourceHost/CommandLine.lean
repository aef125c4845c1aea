import ResourceHost.Host.Commands

/-!
# The command line

A run reads its configuration from a file, if one is named, and from flags,
which count more than the file wherever they stand.  It boots a host over the
build folder of the platform, executes the lines of its input and shuts the
host down.
-/

namespace ResourceHost.CommandLine

/-! ### Arguments -/

/-- The words that mean something on the command line. -/
inductive Flag where
  | config
  | buildDir
  | platform
  | bootPackage
  | bootUnit
  | autoload
  deriving DecidableEq, Repr

namespace Flag

/-- How a flag is written. -/
def word : Flag → String
  | .config => "--config"
  | .buildDir => "--build-dir"
  | .platform => "--platform"
  | .bootPackage => "--boot-pkg"
  | .bootUnit => "--boot-unit"
  | .autoload => "--autoload"

/-- All flags. -/
def all : List Flag :=
  [.config, .buildDir, .platform, .bootPackage, .bootUnit, .autoload]

/-- The flag that a word writes. -/
def ofWord? (w : String) : Option Flag := all.find? fun f => f.word = w

/-- The setting that a flag with a value makes; none for a flag that takes no
value or whose value is no setting. -/
def setting? : Flag → Option (String → Config → Config)
  | .buildDir => some fun v c => { c with buildDir := v }
  | .platform => some fun v c => { c with platform := v }
  | .bootPackage => some fun v c => { c with bootPackage := v }
  | .bootUnit => some fun v c => { c with bootUnit := some v }
  | .config | .autoload => none

end Flag

/-- Makes the settings that arguments ask for, from left to right.  A flag
without its value and words of no meaning are passed over. -/
def override : Config → List String → Config
  | c, [] => c
  | c, [w] =>
    if Flag.ofWord? w = some .autoload then { c with autoload := true } else c
  | c, w :: v :: rest =>
    match Flag.ofWord? w with
    | some .autoload => override { c with autoload := true } (v :: rest)
    | some f =>
      match f.setting? with
      | some set => override (set v c) rest
      | none => override c (v :: rest)
    | none => override c (v :: rest)

/-- The path of the configuration file: the word behind the first flag for
it. -/
def configPath? : List String → Option String
  | [] => none
  | w :: rest => if w = Flag.config.word then rest.head? else configPath? rest

/-- The configuration that the file at a path holds. -/
def readConfig (readText : String → Except Failure String) (path : String) :
    Except Failure Config :=
  match readText path with
  | .error f => .error (.during (.readSettings path) f)
  | .ok text => Activity.explain .parseSettings (Config.ofText text)

/-- The configuration of a run. -/
def configOf (readText : String → Except Failure String) (args : List String) :
    Except Failure Config :=
  match configPath? args with
  | none => .ok (override {} args)
  | some path => (readConfig readText path).map fun c => override c args

/-! ### Input and output -/

/-- What is asked for before each line. -/
def prompt : String := "] "

/-- What a run says when the host has booted. -/
def greeting : String :=
  "Runtime ready. Type 'help' for commands, 'quit' to exit."

/-- The word that ends a run. -/
def quit : String := "quit"

/-- The lines of an input that are not blank, without blanks around them. -/
def inputLines (input : String) : List String :=
  ((input.toList.splitOn '\n').map fun cs =>
    Text.trim (String.ofList cs)).filter (· ≠ "")

/-- The causes of a failure, numbered from a number on. -/
def numbered : Nat → List String → List String
  | _, [] => []
  | n, c :: cs =>
    ("    " ++ Decimal.ofNat n ++ ": " ++ c) :: numbered (n + 1) cs

/-- The lines with which a run that fails ends. -/
def report (f : Failure) : List String :=
  ("Error: " ++ f.message) ::
    match f.causes with
    | [] => []
    | [cause] => ["", "Caused by:", "    " ++ cause]
    | causes => ["", "Caused by:"] ++ numbered 0 causes

/-! ### Runs -/

/-- What a run shows. -/
structure Transcript where
  /-- The lines printed. -/
  output : List String := []
  /-- The failure that ended the run. -/
  failure : Option Failure := none

/-- The exit code of a run. -/
def Transcript.exitCode (t : Transcript) : Nat :=
  if t.failure.isSome then 1 else 0

/-- Executes lines until one says to quit.  A line that fails prints nothing.
Gives what was printed, behind what is in `out`, which is in reverse. -/
def converse : (out : List String) → List String → HostProgram (List String)
  | out, [] => pure out.reverse
  | out, line :: rest =>
    if line = quit then pure out.reverse
    else do
      match ← Host.exec line with
      | .ok printed => converse (printed.reverse ++ out) rest
      | .error _ => converse out rest

/-- Boots, executes lines and shuts down. -/
def hostRun (lines : List String) : HostProgram Transcript := do
  match ← Host.boot with
  | .error f => return { failure := some f }
  | .ok _ =>
    let out ← converse [greeting] lines
    match ← Host.shutdown with
    | .error f => return { output := out, failure := some f }
    | .ok () => return { output := out }

/-- The text of the file at a path. -/
def readText (files : FileSystem) (path : String) : Except Failure String :=
  match files.read path with
  | .error _ => .error .inputOutput
  | .ok bytes =>
    match Text.ofBytes? bytes with
    | some s => .ok s
    | none => .error .inputOutput

/-- A run with some files, arguments and an input. -/
def run (files : FileSystem) (args : List String) (input : String) :
    Transcript :=
  match configOf (readText files) args with
  | .error f => { failure := some f }
  | .ok config =>
    let source :=
      Source.directory (Source.directoryOf config.buildDir config.platform)
        files
    let program := (hostRun (inputLines input)).run (Host.new config)
    (program.run (Host.newCache config source)).1.1

end ResourceHost.CommandLine
