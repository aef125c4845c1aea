import ResourceHost.Config
import ResourceHost.Console.Basic
import ResourceHost.Package.Loading
import ResourceHost.Unit.Spawning

/-!
# The resource host

A host ties a cache to packages, entities, the built-in components and a
console.  It boots by loading the boot package with all that the package
lists, and then spawns the boot unit, if there is one.  What a host does to
its cache is a program; the cache itself is not part of the host.
-/

namespace ResourceHost

/-! ### What commands may ask for -/

/-- What a console command may ask of its host. -/
inductive Service where
  | reloadAll
  | stats
  /-- Loads a package and schedules what it lists. -/
  | loadPackage (name : String)
  | isPackageLoaded (name : String)
  /-- Drops the references of a package and evicts it. -/
  | unloadPackage (name : String)
  | spawnUnit (name : String) (world : WorldId)

/-- What a service answers. -/
abbrev Service.Reply : Service → Type
  | .reloadAll => Cache.ReloadReport
  | .stats => Cache.Stats
  | .loadPackage _ => Except Failure Unit
  | .isPackageLoaded _ => Bool
  | .unloadPackage _ => Except Failure Unit
  | .spawnUnit _ _ => Except Failure EntityId

/-- The script of a command of the host. -/
abbrev Command := List String → Console.Script Service Service.Reply

/-! ### State -/

/-- How far a host has come. -/
inductive Phase where
  /-- Nothing is loaded. -/
  | idle
  /-- The boot package is loading. -/
  | booting
  /-- The boot is over. -/
  | running
  deriving DecidableEq, Repr

/-- A host. -/
structure Host where
  config : Config
  console : Console Service Service.Reply
  /-- What came of the loads that wait for a flush. -/
  pending : Package.Pending (Except Failure Unit) := {}
  entities : Allocator := {}
  transforms : Transforms := Table.empty
  phase : Phase := .idle

/-- What a host does: a program that changes the host on its way. -/
abbrev HostProgram (α : Type) := StateT Host Program α

namespace Host

/-- The name of the component that places entities. -/
def transformComponent : ComponentId := Id.ofName "transform"

/-- The components that a host knows. -/
def components : Components Transforms :=
  Table.empty.put transformComponent Transforms.spawner

/-- A program that leaves the host as it is. -/
def doing {α : Type} (p : Program α) : HostProgram α := fun h => do
  return (← p, h)

/-- Stops at a failure; goes on with the value otherwise. -/
def orStop {α β : Type} (p : HostProgram (Except Failure α))
    (f : α → HostProgram (Except Failure β)) :
    HostProgram (Except Failure β) := do
  match ← p with
  | .ok a => f a
  | .error e => return .error e

/-- Says of a failure what was being done. -/
def explaining {α : Type} (what : Activity)
    (p : HostProgram (Except Failure α)) : HostProgram (Except Failure α) := do
  return what.explain (← p)

/-! ### Packages -/

/-- Loads a package itself, without what it lists. -/
def loadManifest (p : NameId) : Program (Except Failure Unit) :=
  Cache.load Kind.packageType [p]

/-- Schedules what a package lists.  What comes of it waits for a flush. -/
def schedule (p : NameId) : HostProgram (Except Failure Unit) :=
  orStop (doing (Package.schedule p)) fun outcome => do
    modify fun h => { h with pending := h.pending.add p outcome }
    return .ok ()

/-- Reports what came of scheduled loads of a package. -/
def flush (p : NameId) : HostProgram (Except Failure Unit) := fun h =>
  let (result, pending) := h.pending.flush p
  pure (result, { h with pending := pending })

/-- Drops the references of a package and evicts it. -/
def unloadPackage (p : NameId) : Program (Except Failure Unit) :=
  (Package.unload p).orStop fun _ => Cache.unload (Package.handle p)

/-! ### Units -/

/-- Spawns a unit that is online. -/
def spawn (world : WorldId) (unit : NameId) :
    HostProgram (Except Failure EntityId) :=
  orStop (doing (Cache.getUnit (Unit.handle unit))) fun d => fun h =>
    let (result, entities, transforms) :=
      Unit.spawn d world components h.entities h.transforms
    pure (result, { h with entities := entities, transforms := transforms })

/-- Makes sure that a unit is online, if missing resources are loaded on first
use. -/
def findUnit (unit : NameId) : HostProgram (Except Failure Representation) :=
  doing (Cache.getOrLoad (Unit.handle unit))

/-- Spawns a unit by name. -/
def spawnUnit (name : String) (world : WorldId) :
    HostProgram (Except Failure EntityId) :=
  orStop (explaining (.findUnit name) (findUnit (Id.ofName name))) fun _ =>
    explaining (.spawnUnit name) (spawn world (Id.ofName name))

/-! ### Services -/

/-- Serves a command. -/
def serve : (s : Service) → HostProgram s.Reply
  | .reloadAll => doing Cache.reloadAll
  | .stats => doing Cache.stats
  | .loadPackage name => orStop (doing (loadManifest (Id.ofName name))) fun _ =>
    schedule (Id.ofName name)
  | .isPackageLoaded name => doing (Package.isLoaded (Id.ofName name))
  | .unloadPackage name => doing (unloadPackage (Id.ofName name))
  | .spawnUnit name world => orStop (findUnit (Id.ofName name)) fun _ =>
    spawn world (Id.ofName name)

/-! ### Running -/

/-- Loads the boot package and waits for what it lists. -/
def bootPackage (config : Config) : HostProgram (Except Failure Unit) :=
  let p : NameId := Id.ofName config.bootPackage
  orStop
    (explaining (.loadBootPackage config.bootPackage)
      (doing (loadManifest p))) fun _ =>
    orStop (schedule p) fun _ => flush p

/-- Spawns the boot unit, if there is one. -/
def bootUnit (config : Config) :
    HostProgram (Except Failure (Option EntityId)) :=
  match config.bootUnit with
  | none => pure (.ok none)
  | some name => orStop (spawnUnit name ⟨0⟩) fun root => pure (.ok (some root))

/-- Boots.  Gives the root of the boot unit. -/
def boot : HostProgram (Except Failure (Option EntityId)) := do
  modify fun h => { h with phase := .booting }
  let config := (← get).config
  orStop (bootPackage config) fun _ =>
    orStop (bootUnit config) fun root => do
      modify fun h => { h with phase := .running }
      return .ok root

/-- Unloads the boot package, if it is there, with what it lists. -/
def shutdown : HostProgram (Except Failure Unit) := do
  let p : NameId := Id.ofName (← get).config.bootPackage
  let booted ← doing (Cache.canGet (Package.handle p))
  orStop (if booted then doing (unloadPackage p) else pure (.ok ())) fun _ => do
    modify fun h => { h with phase := .idle }
    return .ok ()

/-- Whether the variables of a console ask for loading on first use. -/
def wantsAutoload (console : Console Service Service.Reply) : Bool :=
  match console.getCvar "resource.autoload" with
  | some v => v.asTruth
  | none => false

/-- Executes a console line.  After a line that succeeds, missing resources
are loaded on first use exactly if the variable says so. -/
def exec (line : String) : HostProgram (Except Failure (List String)) := do
  let (result, console) ← (← get).console.exec serve line
  modify fun h => { h with console := console }
  orStop (pure result) fun out => do
    let on := wantsAutoload console
    if on ≠ (← doing (Program.request .autoload)) then
      doing (Program.request (.setAutoload on))
    return .ok out

end Host

end ResourceHost
