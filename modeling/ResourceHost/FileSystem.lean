import ResourceHost.Folder
import ResourceHost.Path

/-!
# File systems

What paths hold.  In a plain file system every path is a place of its own.  In
a tree a path is walked name by name from the working folder or from the root:
every name before the last must be a folder.
-/

namespace ResourceHost

/-- Why a path cannot be read. -/
inductive ReadProblem where
  /-- Nothing is there. -/
  | absent
  /-- Something else than a file is there, or on the way, or the path is
  none. -/
  | refused
  deriving DecidableEq, Repr

/-- Files by path. -/
inductive FileSystem where
  /-- A table from paths to what they hold. -/
  | plain (nodes : Table String Node)
  /-- A working folder.  In its locations the root stands first as `/`, and
  a folder above it is reached by `..`. -/
  | tree (top : Node)

namespace FileSystem

/-- The working folder without files. -/
def empty : FileSystem := .tree Node.emptyFolder

/-! ### Walks -/

/-- The location of the folder that a folder lies in.  The root lies in
itself. -/
def above (here : List String) : List String :=
  if here = ["/"] then here
  else if here.all (· = Path.up) then here ++ [Path.up]
  else here.dropLast

/-- Where walks along a path begin. -/
def origin (path : String) : List String :=
  if Path.isAbsolute path then ["/"] else []

/-- Walks from a folder along names, and gives the location where the walk
ends.  Only the last name may be a file. -/
def walk (top : Node) :
    (here : List String) → List String → Except ReadProblem (List String)
  | here, [] => .ok here
  | here, name :: rest =>
    if Path.staysHere name then walk top here rest
    else if name = Path.up then walk top (above here) rest
    else if !Path.isName name then .error .refused
    else
      match top.get? (here ++ [name]) with
      | none => .error .absent
      | some (.folder _) => walk top (here ++ [name]) rest
      | some (.file _) =>
        if rest = [] then .ok (here ++ [name]) else .error .refused

/-- The location that a path leads to. -/
def locate (top : Node) (path : String) : Except ReadProblem (List String) :=
  if path = "" then .error .absent
  else if !Path.isWalkable path then .error .refused
  else walk top (origin path) (Path.names path)

/-- Walks from a folder along names and makes the folders that are missing.
Gives what the working folder becomes, and the location where the walk ends if
nothing stops it.  What was made before it was stopped stays. -/
def makeWay : (top : Node) → (here : List String) → List String →
    Node × Option (List String)
  | top, here, [] => (top, some here)
  | top, here, name :: rest =>
    if Path.staysHere name then makeWay top here rest
    else if name = Path.up then makeWay top (above here) rest
    else if !Path.isName name then (top, none)
    else
      match top.get? (here ++ [name]) with
      | none =>
        makeWay (top.put (here ++ [name]) .emptyFolder) (here ++ [name]) rest
      | some (.folder _) => makeWay top (here ++ [name]) rest
      | some (.file _) => (top, none)

/-- A working folder with a folder at a path, and with those on the way to
it. -/
def makeFolderIn (top : Node) (path : String) : Node :=
  if Path.isWalkable path then (makeWay top (origin path) (Path.names path)).1
  else top

/-- A working folder with a file in one of its folders, unless a folder has the
name already. -/
def writeAt (top : Node) (here : List String) (name : String)
    (bytes : List UInt8) : Node :=
  if Path.staysHere name || name = Path.up || !Path.isName name then top
  else
    match top.get? (here ++ [name]) with
    | some (.folder _) => top
    | _ => top.put (here ++ [name]) (.file bytes)

/-- A working folder with a file at a path, and with the folders on the way to
it. -/
def writeIn (top : Node) (path : String) (bytes : List UInt8) : Node :=
  let names := Path.names path
  if !Path.isWalkable path then top
  else
    match makeWay top (origin path) names.dropLast with
    | (made, some here) => writeAt made here (names.getLast?.getD "") bytes
    | (made, none) => made

/-! ### Reading and writing -/

/-- The bytes that a node holds. -/
def bytesOf : Option Node → Except ReadProblem (List UInt8)
  | none => .error .absent
  | some (.file bytes) => .ok bytes
  | some (.folder _) => .error .refused

/-- The bytes of the file at a path. -/
def read (fs : FileSystem) (path : String) : Except ReadProblem (List UInt8) :=
  match fs with
  | .plain nodes => bytesOf (nodes.get? path)
  | .tree top =>
    match locate top path with
    | .error p => .error p
    -- The root and the folders above are there, whether or not anything in them
    -- is known.
    | .ok location => bytesOf (some ((top.get? location).getD .emptyFolder))

/-- Writes a file. -/
def write (fs : FileSystem) (path : String) (bytes : List UInt8) : FileSystem :=
  match fs with
  | .plain nodes => .plain (nodes.put path (.file bytes))
  | .tree top => .tree (writeIn top path bytes)

/-- Makes a folder. -/
def makeFolder (fs : FileSystem) (path : String) : FileSystem :=
  match fs with
  | .plain nodes => .plain (nodes.put path .emptyFolder)
  | .tree top => .tree (makeFolderIn top path)

/-- Removes a file; a folder stays. -/
def remove (fs : FileSystem) (path : String) : FileSystem :=
  match fs with
  | .plain nodes =>
    match nodes.get? path with
    | some (.file _) => .plain (nodes.drop path)
    | _ => fs
  | .tree top =>
    match locate top path with
    | .error _ => fs
    | .ok location =>
      match top.get? location with
      | some (.file _) =>
        .tree (top.drop location.dropLast (location.getLast?.getD ""))
      | _ => fs

end FileSystem

end ResourceHost
