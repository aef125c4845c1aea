import ResourceHost.Host.Basic

/-!
# Commands and variables of a host

The console commands with which a host is operated, and the variables that
show its configuration.
-/

namespace ResourceHost.Host

open Console (Script)

/-! ### Commands -/

/-- A command whose first argument is a name. -/
def onName (usage : String)
    (command : String → List String → Script Service Service.Reply) : Command
  | [] => .fail (.usage usage)
  | name :: rest => command name rest

/-- Reloads everything and lists what failed. -/
def reloadAllCommand : Command := fun _ =>
  .call .reloadAll fun (report : Cache.ReloadReport) =>
    .printAll (report.failed.map fun f => "  failed: " ++ f.message)
      (.print
        ("reloaded " ++ Decimal.ofNat report.reloaded ++ " resource(s), "
          ++ Decimal.ofNat report.failed.length ++ " failed")
        .finish)

/-- Prints how many entries are in which state. -/
def statsCommand : Command := fun _ =>
  .call .stats fun (s : Cache.Stats) =>
    .print
      ("online: " ++ Decimal.ofNat s.online
        ++ ", offline: " ++ Decimal.ofNat s.offline
        ++ ", loading: " ++ Decimal.ofNat s.loading)
      .finish

/-- Loads a package and schedules what it lists. -/
def loadPackageCommand : Command :=
  onName "package.load <name>" fun name _ =>
    .call (.loadPackage name) fun (result : Except Failure Unit) =>
      .orFail result fun _ =>
        .print ("package " ++ name ++ " scheduled") .finish

/-- Prints whether a package and all it lists are online. -/
def packageStatusCommand : Command :=
  onName "package.status <name>" fun name _ =>
    .call (.isPackageLoaded name) fun (loaded : Bool) =>
      .print
        ("package " ++ name ++ ": " ++ if loaded then "loaded" else "pending")
        .finish

/-- Drops the references of a package and evicts it. -/
def unloadPackageCommand : Command :=
  onName "package.unload <name>" fun name _ =>
    .call (.unloadPackage name) fun (result : Except Failure Unit) =>
      .orFail result fun _ => .print ("package " ++ name ++ " unloaded") .finish

/-- The world that the second argument of a spawn names, the first world if
there is none. -/
def readWorld : List String → Except Failure WorldId
  | [] => .ok ⟨0⟩
  | word :: _ =>
    match Decimal.readWord32 word with
    | .ok n => .ok ⟨n⟩
    | .error p => .error (.during .readWorld (.integer p))

/-- Spawns a unit. -/
def spawnCommand : Command :=
  onName "unit.spawn <name> [world]" fun name rest =>
    .orFail (readWorld rest) fun world =>
      .call (.spawnUnit name world) fun (result : Except Failure EntityId) =>
        .orFail result fun root =>
          .print
            ("spawned " ++ name ++ " in world " ++ Decimal.ofNat world.raw.toNat
              ++ ": root entity " ++ Decimal.ofNat root.raw)
            .finish

/-- The commands of a host. -/
def commands : List (String × Command) := [
  ("resource.reload_all", reloadAllCommand),
  ("resource.stats", statsCommand),
  ("package.load", loadPackageCommand),
  ("package.status", packageStatusCommand),
  ("package.unload", unloadPackageCommand),
  ("unit.spawn", spawnCommand)]

/-! ### Variables -/

/-- The variables of a host: name, value, description and flags. -/
def cvars (config : Config) :
    List (String × Console.Value × String × UInt32) := [
  ("resource.build_dir", .text config.buildDir, "Compiled resource root",
    Console.readOnly),
  ("resource.platform", .text config.platform,
    "Platform subdirectory of the build root", Console.readOnly),
  ("resource.autoload", .truth config.autoload,
    "Load missing resources on first access", Console.develop),
  ("boot.pkg", .text config.bootPackage, "Boot package", Console.readOnly),
  ("boot.unit", .text (config.bootUnit.getD ""), "Unit spawned after boot",
    Console.readOnly)]

/-! ### A new host -/

/-- The console of a new host. -/
def newConsole (config : Config) : Console Service Service.Reply :=
  let withCvars := (cvars config).foldl
    (fun c (name, value, description, flags) =>
      c.registerCvar name value description flags)
    Console.new
  commands.foldl (fun c (name, command) => c.registerCommand name command)
    withCvars

/-- A new host. -/
def new (config : Config) : Host :=
  { config := config, console := newConsole config }

/-- The cache of a new host: it knows the built-in types and nothing else. -/
def newCache (config : Config) (source : Source) : Cache :=
  let (_, cache) := Cache.registerBuiltin.run { source := source }
  { cache with autoload := config.autoload }

end ResourceHost.Host
