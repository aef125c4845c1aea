import ResourceHost.Table

/-!
# Folders

Files and folders inside each other.  A location is the list of names that
leads from a folder to what lies in it.  What a `put` or a `drop` changes is
stated by what is found at locations afterwards.
-/

namespace ResourceHost

/-- A file, or a folder with what lies in it. -/
inductive Node where
  | file (bytes : List UInt8)
  | folder (entries : Table String Node)

namespace Node

/-- A folder that holds nothing. -/
def emptyFolder : Node := .folder Table.empty

/-- What lies in a node; nothing in a file. -/
def entries : Node → Table String Node
  | .file _ => Table.empty
  | .folder es => es

/-- What is at a location. -/
def get? : Node → List String → Option Node
  | n, [] => some n
  | n, name :: rest =>
    match n.entries.get? name with
    | none => none
    | some inner => inner.get? rest

/-- Puts `x` at a location, inside folders that are made where none are. -/
def put : Node → List String → (x : Node) → Node
  | _, [], x => x
  | n, name :: rest, x =>
    .folder (n.entries.put name (put (n.entries.getD name emptyFolder) rest x))

/-- Takes what has a name out of the folder at a location. -/
def drop : Node → List String → (name : String) → Node
  | n, [], name => .folder (n.entries.drop name)
  | n, next :: rest, name =>
    match n.entries.get? next with
    | none => n
    | some inner => .folder (n.entries.put next (inner.drop rest name))

/-! ### The lookup view -/

@[simp] theorem entries_folder (es : Table String Node) :
    (folder es).entries = es := rfl

@[simp] theorem entries_emptyFolder : emptyFolder.entries = Table.empty := rfl

@[simp] theorem get?_put_self (n : Node) (location : List String) (x : Node) :
    (n.put location x).get? location = some x := by
  induction location generalizing n with
  | nil => rfl
  | cons name rest ih => simp [get?, put, ih]

theorem get?_emptyFolder (location : List String) (name : String) :
    emptyFolder.get? (location ++ [name]) = none := by
  cases location <;> simp [get?, Table.get?_empty]

/-- What lies beside a location is not touched. -/
theorem get?_put_beside (n : Node) (location : List String) {a b : String}
    (h : b ≠ a) (x : Node) :
    (n.put (location ++ [a]) x).get? (location ++ [b]) =
      n.get? (location ++ [b]) := by
  induction location generalizing n with
  | nil => simp [get?, put, Table.get?_put_of_ne _ h]
  | cons name rest ih =>
    simp only [List.cons_append, get?, put, entries_folder,
      Table.get?_put_self, ih]
    cases hn : n.entries.get? name with
    | none => simp [Table.getD, hn, get?_emptyFolder]
    | some inner => simp [Table.getD, hn]

@[simp] theorem get?_drop_self (n : Node) (location : List String)
    (a : String) : (n.drop location a).get? (location ++ [a]) = none := by
  induction location generalizing n with
  | nil => simp [get?, drop]
  | cons name rest ih =>
    cases hn : n.entries.get? name with
    | none => simp [get?, drop, hn]
    | some inner => simp [get?, drop, hn, ih]

theorem get?_drop_beside (n : Node) (location : List String) {a b : String}
    (h : b ≠ a) :
    (n.drop location a).get? (location ++ [b]) = n.get? (location ++ [b]) := by
  induction location generalizing n with
  | nil => simp [get?, drop, Table.get?_drop_of_ne _ h]
  | cons name rest ih =>
    cases hn : n.entries.get? name with
    | none => simp [drop, hn]
    | some inner => simp [get?, drop, hn, ih]

end Node

end ResourceHost
