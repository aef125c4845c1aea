import ResourceHost.CommandLine

/-!
# The program

Runs a host over real files, reading console lines from standard input.  A
program is run request by request; before a request that reads a resource, the
cache is shown what the file of the resource holds now.
-/

namespace ResourceHost.Main

/-- The handle whose bytes a request may read. -/
def readHandle? : Request → Option Handle
  | .read h => some h
  | .acquire h _ => some h
  | _ => none

/-- What a file holds now. -/
def readFile (path : String) : IO (Except ReadProblem (List UInt8)) := do
  try
    return .ok (← IO.FS.readBinFile path).toList
  catch
    | .noFileOrDirectory .. => return .error .absent
    | _ => return .error .refused

/-- A source that holds what the file of a handle holds now. -/
def refresh (s : Source) (h : Handle) : IO Source := do
  match s with
  | .memory _ => return s
  | .directory dir _ =>
    let bare := Source.directory dir (.plain Table.empty)
    match ← readFile (Source.pathOf dir h) with
    | .ok bytes => return bare.put h bytes
    | .error .absent => return bare
    | .error .refused => return bare.obstruct h

/-- Runs a program over real files. -/
def runProgram {α : Type} : Program α → Cache → IO (α × Cache)
  | .done a, c => return (a, c)
  | .ask r next, c => do
    let source ← match readHandle? r with
      | some h => refresh c.source h
      | none => pure c.source
    let (reply, c') := r.run { c with source := source }
    runProgram (next reply) c'

/-- The text of a file. -/
def readText (path : String) : IO (Except Failure String) := do
  match ← readFile path with
  | .ok bytes => return (Text.ofBytes? bytes).elim (.error .inputOutput) .ok
  | .error _ => return .error .inputOutput

/-- The configuration of a run. -/
def configOf (args : List String) : IO (Except Failure Config) := do
  match CommandLine.configPath? args with
  | none => return CommandLine.configOf (fun _ => .error .inputOutput) args
  | some path =>
    let text ← readText path
    return CommandLine.configOf (fun _ => text) args

/-- Reads and executes lines until the input ends or a line says to quit. -/
partial def converse (host : Host) (cache : Cache) : IO (Host × Cache) := do
  let stdout ← IO.getStdout
  stdout.putStr CommandLine.prompt
  stdout.flush
  let raw ← (← IO.getStdin).getLine
  if raw = "" then return (host, cache)
  let line := Text.trim raw
  if line = "" then converse host cache
  else if line = CommandLine.quit then return (host, cache)
  else
    let ((result, host), cache) ← runProgram ((Host.exec line).run host) cache
    match result with
    | .ok out => out.forM fun text => IO.println text
    | .error f =>
      IO.eprintln ("command failed: " ++ ": ".intercalate f.messages)
    converse host cache

/-- Prints why a run failed. -/
def giveUp (f : Failure) : IO UInt32 := do
  (CommandLine.report f).forM fun text => IO.eprintln text
  return 1

/-- Boots, executes the lines of standard input and shuts down. -/
def host (config : Config) : IO UInt32 := do
  let files := FileSystem.plain Table.empty
  let source :=
    Source.directory (Source.directoryOf config.buildDir config.platform) files
  let cache := Host.newCache config source
  let ((booted, host), cache) ←
    runProgram (Host.boot.run (Host.new config)) cache
  match booted with
  | .error f => giveUp f
  | .ok _ =>
    IO.println CommandLine.greeting
    let (host, cache) ← converse host cache
    let ((closed, _), _) ← runProgram (Host.shutdown.run host) cache
    match closed with
    | .error f => giveUp f
    | .ok () => return 0

end ResourceHost.Main

/-- Runs a host as the arguments say. -/
def main (args : List String) : IO UInt32 := do
  match ← ResourceHost.Main.configOf args with
  | .error f => ResourceHost.Main.giveUp f
  | .ok config => ResourceHost.Main.host config
