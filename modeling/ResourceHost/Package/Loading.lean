import ResourceHost.Cache.Operations

/-!
# Loading packages

Loading a package takes a reference to everything that its manifest lists.
The loading happens in the background: scheduling it succeeds if the manifest
is there, and what came of it waits for the next flush of the package.  A
flush gives the earliest failure that waits and leaves nothing behind.
Unloading drops the references and evicts what nobody holds any more.
-/

namespace ResourceHost.Package

open Program

/-- The handle of a package. -/
def handle (p : NameId) : Handle := ⟨Kind.packageType, p⟩

/-- The manifest of a package that is online. -/
def manifest (p : NameId) : Program (Except Failure Manifest) :=
  Cache.getPackage (handle p)

/-- Loads groups in order, up to the first that fails. -/
def loadGroups : List Group → Program (Except Failure Unit)
  | [] => pure (.ok ())
  | g :: gs => (Cache.load g.type g.names).orStop fun _ => loadGroups gs

/-- Schedules the loading of a package.  The inner result is what comes of the
loading, which is over when the program ends. -/
def schedule (p : NameId) : Program (Except Failure (Except Failure Unit)) :=
  (manifest p).orStop fun m => do
    return .ok (← loadGroups m.groups)

/-- Whether all resources of groups are online. -/
def groupsLoaded : List Group → Program Bool
  | [] => pure true
  | g :: gs => do
    if ← Cache.canGetAll g.type g.names then groupsLoaded gs else return false

/-- Whether a package and everything it lists are online. -/
def isLoaded (p : NameId) : Program Bool := do
  match ← manifest p with
  | .ok m => groupsLoaded m.groups
  | .error _ => return false

/-- Drops a reference to each name.  Gives the names of which none is left, in
their order behind those in `unused`, which are in reverse. -/
def releaseAll (t : TypeId) :
    (unused : List NameId) → List NameId → Program (List NameId)
  | unused, [] => pure unused.reverse
  | unused, n :: ns => do
    match ← Cache.release ⟨t, n⟩ with
    | .ok (_ + 1) => releaseAll t unused ns
    | _ => releaseAll t (n :: unused) ns

/-- Drops the references to groups, and evicts from each group what nobody
holds before the next one is looked at. -/
def unloadGroups : List Group → Program (Except Failure Unit)
  | [] => pure (.ok ())
  | g :: gs => do
    let unused ← releaseAll g.type [] g.names
    (Cache.unloadAll g.type unused).orStop fun _ => unloadGroups gs

/-- Drops the references to everything that a package lists. -/
def unload (p : NameId) : Program (Except Failure Unit) :=
  (manifest p).orStop fun m => unloadGroups m.groups

/-! ### Loads that wait for a flush -/

/-- The scheduled loads, for each package in the order of scheduling.  A load
stands there as what came of it, or as a name under which that will be found. -/
structure Pending (α : Type) where
  loads : Table NameId (List α) := Table.empty

namespace Pending

variable {α : Type}

/-- The loads that wait for a flush of a package. -/
def waiting (w : Pending α) (p : NameId) : List α := w.loads.getD p []

/-- Adds a load. -/
def add (w : Pending α) (p : NameId) (load : α) : Pending α :=
  ⟨w.loads.put p (w.waiting p ++ [load])⟩

/-- Takes out the loads of a package. -/
def take (w : Pending α) (p : NameId) : List α × Pending α :=
  (w.waiting p, ⟨w.loads.drop p⟩)

end Pending

/-- The earliest failure among outcomes. -/
def firstFailure? : List (Except Failure Unit) → Option Failure
  | [] => none
  | .ok () :: rest => firstFailure? rest
  | .error f :: _ => some f

/-- What a flush reports of the loads of a package: the earliest failure. -/
def report (p : NameId) (outcomes : List (Except Failure Unit)) :
    Except Failure Unit :=
  match firstFailure? outcomes with
  | some f => .error (.during (.loadPackage p) f)
  | none => .ok ()

/-- Takes out the loads of a package, all of which are over, and reports. -/
def Pending.flush (w : Pending (Except Failure Unit)) (p : NameId) :
    Except Failure Unit × Pending (Except Failure Unit) :=
  (report p (w.take p).1, (w.take p).2)

/-! ### What a flush sees -/

namespace Pending

variable {α : Type}

theorem waiting_add_self (w : Pending α) (p : NameId) (l : α) :
    (w.add p l).waiting p = w.waiting p ++ [l] := by
  simp [add, waiting, Table.getD]

theorem waiting_add_of_ne (w : Pending α) {p q : NameId} (h : q ≠ p) (l : α) :
    (w.add p l).waiting q = w.waiting q := by
  simp [add, waiting, Table.getD, Table.get?_put_of_ne _ h]

theorem waiting_take_self (w : Pending α) (p : NameId) :
    (w.take p).2.waiting p = [] := by
  simp [take, waiting, Table.getD]

theorem waiting_take_of_ne (w : Pending α) {p q : NameId} (h : q ≠ p) :
    (w.take p).2.waiting q = w.waiting q := by
  simp [take, waiting, Table.getD, Table.get?_drop_of_ne _ h]

end Pending

end ResourceHost.Package
