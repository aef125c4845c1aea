/-!
# Paths

A path is a text of names with slashes between them.  It begins at the root if
a slash stands first, and at the working folder if not.
-/

namespace ResourceHost.Path

/-- Whether a path begins at the root. -/
def isAbsolute (path : String) : Bool := path.startsWith "/"

/-- The path of `part` seen from `base`.  An absolute part stands for itself. -/
def join (base part : String) : String :=
  if isAbsolute part then part
  else if base = "" then part
  else if base.endsWith "/" then base ++ part
  else base ++ "/" ++ part

/-- The names of a path, the empty ones between two slashes among them. -/
def names (path : String) : List String :=
  (path.toList.splitOn '/').map String.ofList

/-- The most bytes that a name may have. -/
def maxNameSize : Nat := 255

/-- Whether a folder may hold something of this name. -/
def isName (name : String) : Bool := decide (name.utf8ByteSize ≤ maxNameSize)

/-- Whether a name leaves a walk where it is. -/
def staysHere (name : String) : Bool := name = "" || name = "."

/-- The name that leads a walk up. -/
def up : String := ".."

/-- The most bytes that a path may have. -/
def maxSize : Nat := 4095

/-- Whether a path can be walked at all: it is not too long, and no zero
character ends it early. -/
def isWalkable (path : String) : Bool :=
  decide (path.utf8ByteSize ≤ maxSize) && !path.toList.contains '\x00'

end ResourceHost.Path
