import ResourceHost.Failure
import ResourceHost.FileSystem

/-!
# Byte sources

Where the bytes of resources come from: a table in memory, or a folder with
one file for each handle, named by its build name.
-/

namespace ResourceHost

/-- A store of bytes by handle. -/
inductive Source where
  | memory (data : Table Handle (List UInt8))
  | directory (dir : String) (files : FileSystem)

namespace Source

/-- The folder of the resources of a platform. -/
def directoryOf (buildDir platform : String) : String :=
  Path.join buildDir platform

/-- The path of a handle's file in a folder. -/
def pathOf (dir : String) (h : Handle) : String := Path.join dir h.buildName

/-- The bytes of a handle. -/
def read (s : Source) (h : Handle) : Except SourceFailure (List UInt8) :=
  match s with
  | .memory data =>
    match data.get? h with
    | some bytes => .ok bytes
    | none => .error (.noData h)
  | .directory dir files =>
    match files.read (pathOf dir h) with
    | .ok bytes => .ok bytes
    | .error .absent => .error (.noData h)
    | .error .refused => .error (.unreadable (pathOf dir h))

/-- Stores bytes for a handle, over what was there. -/
def put (s : Source) (h : Handle) (bytes : List UInt8) : Source :=
  match s with
  | .memory data => .memory (data.put h bytes)
  | .directory dir files => .directory dir (files.write (pathOf dir h) bytes)

/-- Takes the bytes of a handle out. -/
def remove (s : Source) (h : Handle) : Source :=
  match s with
  | .memory data => .memory (data.drop h)
  | .directory dir files => .directory dir (files.remove (pathOf dir h))

/-- Makes a folder where the bytes of a handle would be. -/
def obstruct (s : Source) (h : Handle) : Source :=
  match s with
  | .memory data => .memory data
  | .directory dir files => .directory dir (files.makeFolder (pathOf dir h))

end Source

end ResourceHost
