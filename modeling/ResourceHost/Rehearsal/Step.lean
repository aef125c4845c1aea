import ResourceHost.Cache.Tally
import ResourceHost.Package.Loading
import ResourceHost.Rehearsal.Fixture
import ResourceHost.Unit.Spawning

/-!
# Steps of a rehearsal

A rehearsal goes through steps on one stage: a cache, packages that wait for a
flush, components and entities, and representations that are kept under names.
A step asks the cache something, by a program, and ends with what it makes of
the stage and with an answer.
-/

namespace ResourceHost.Rehearsal

/-! ### Steps and answers -/

/-- A step. -/
inductive Step where
  /-- Registers a type, known by its name or not, with what happens within its
  callbacks: the steps to go through when one is first made for a name. -/
  | register (t : TypeId) (named : Bool) (cast : Cast)
      (hooks : List (Cue × NameId × List Step))
  | registerBuiltin
  | hasType (t : TypeId)
  | kindOf (t : TypeId)
  | tally (t : TypeId)
  | onlineCount (t : TypeId)
  | load (t : TypeId) (names : List NameId)
  | addLoaded (h : Handle) (content : Content)
  | get (h : Handle)
  | getAs (h : Handle) (shape : Shape)
  | getOrLoad (h : Handle)
  | canGet (h : Handle)
  | canGetAll (t : TypeId) (names : List NameId)
  | state (h : Handle)
  | refCount (h : Handle)
  | release (h : Handle)
  | stats
  | offline (h : Handle)
  | online (h : Handle)
  | reload (h : Handle) (bytes : List UInt8)
  | reloadFromSource (t : TypeId) (names : List NameId)
  | reloadAll
  | unload (h : Handle)
  | unloadAll (t : TypeId) (names : List NameId)
  | setAutoload (on : Bool)
  | autoload
  /-- Keeps a representation under a name. -/
  | hold (h : Handle) (name : String)
  | held (name : String)
  /-- Whether two names keep one and the same representation. -/
  | same (a b : String)
  | loadPackage (p : NameId)
  | flushPackage (p : NameId)
  | isPackageLoaded (p : NameId)
  | unloadPackage (p : NameId)
  | spawn (world : WorldId) (unit : NameId)
  | spawnDescription (world : WorldId) (d : Unit.Description)
  | create
  | created
  | hasComponent (c : ComponentId)
  | transformOf (system : String) (world : WorldId) (e : EntityId)
  | transforms (system : String)
  | batches (system : String)
  | put (h : Handle) (bytes : List UInt8)
  | remove (h : Handle)
  /-- Makes a folder where the bytes of a handle would be. -/
  | obstruct (h : Handle)
  | read (h : Handle)
  /-- Goes through steps side by side with what is under way. -/
  | aside (steps : List Step)

/-- What a step gives when it succeeds. -/
inductive Value where
  | nothing
  | truth (b : Bool)
  | count (n : Nat)
  | type (t : TypeId)
  | state (s : State)
  | bytes (data : List UInt8)
  /-- A content, of which it is said what it is. -/
  | content (c : Content)
  /-- A content that was asked for as what it is. -/
  | plain (c : Content)
  | tally (t : Tally)
  | stats (s : Cache.Stats)
  | report (r : Cache.ReloadReport)
  | placed (t : Transform)
  /-- Whether a component is registered, and whether it has a spawner. -/
  | component (registered spawner : Bool)
  | size (n : Nat)
  | batches (bs : List Batch)

/-- What a step answers. -/
inductive Answer where
  | ok (v : Value)
  | failed (f : Failure)
  /-- The source itself was read, and failed. -/
  | unread (why : SourceFailure)

namespace Answer

/-- The answer of a step that gives nothing. -/
def done : Answer := .ok .nothing

/-- The answer that a result stands for. -/
def ofResult {α : Type} (value : α → Value) : Except Failure α → Answer
  | .ok a => .ok (value a)
  | .error f => .failed f

/-- The answer of a result without a value. -/
def ofUnit : Except Failure Unit → Answer := ofResult fun _ => .nothing

/-- A value that may be missing. -/
def ofOption {α : Type} (value : α → Value) : Option α → Answer
  | some a => .ok (value a)
  | none => done

end Answer

/-! ### The stage -/

/-- Steps that wait for a callback about a name. -/
structure Hook where
  type : TypeId
  cue : Cue
  name : NameId
  steps : List Step

/-- Whether a hook waits for a callback. -/
def Hook.awaits (hook : Hook) (h : Handle) (cue : Cue) : Bool :=
  hook.type = h.type && hook.cue = cue && hook.name = h.name

/-- What steps have to do with besides the cache. -/
structure Props where
  /-- What the types registered by steps are. -/
  casts : Table TypeId Cast := Table.empty
  /-- The hooks that have not been gone through yet. -/
  hooks : List Hook := []
  held : Table String Representation := Table.empty
  /-- The loads of packages, by number: none while one is under way. -/
  loads : List (Option (Except Failure Unit)) := []
  pending : Package.Pending Nat := {}
  entities : Allocator := {}
  components : Components Systems := Table.empty
  systems : Systems := {}

/-- What a step is on: a cache and the props. -/
structure Stage where
  cache : Cache
  props : Props

/-- What a step goes on with when its program is over. -/
inductive Sequel where
  /-- The step is over. -/
  | answer (a : Answer)
  /-- Loads the groups of a package; what comes of it settles a load. -/
  | load (n : Nat) (groups : List Package.Group)
  /-- Waits until loads of a package are settled, and reports. -/
  | await (p : NameId) (loads : List Nat)

/-- How the program of a step ends: with a sequel, and with what it makes of the
stage. -/
abbrev Ending := Stage → Sequel × Stage

namespace Ending

/-- Leaves the stage as it is. -/
def answer (a : Answer) : Ending := fun s => (.answer a, s)

/-- Changes the source of bytes, and gives an answer about the old one. -/
def source (f : Source → Source) (answer : Source → Answer := fun _ => .done) :
    Ending :=
  fun s => (.answer (answer s.cache.source),
    { s with cache := { s.cache with source := f s.cache.source } })

/-- Changes the props. -/
def props (a : Answer) (f : Props → Props) : Ending := fun s =>
  (.answer a, { s with props := f s.props })

/-- Answers from the props. -/
def ofProps (f : Props → Answer) : Ending := fun s => (.answer (f s.props), s)

/-- Takes out the bytes of a handle, and answers what they were. -/
def remove (h : Handle) : Ending :=
  source (·.remove h) fun old => .ofOption .bytes (old.read h).toOption

/-- Notes that a type has been registered. -/
def registered (t : TypeId) (named : Bool) (cast : Cast)
    (hooks : List (Cue × NameId × List Step)) : Ending :=
  let silent := !named || cast = .counting || cast = .raw
  props (.ok (if silent then .nothing else .type t)) fun p => { p with
    casts := p.casts.put t cast
    hooks :=
      p.hooks ++ hooks.map fun (cue, name, steps) => ⟨t, cue, name, steps⟩ }

/-- Answers by what a type was registered as. -/
def ofCast (t : TypeId) (cast : Cast) (value : List Callback → Value) :
    Ending := fun s =>
  answer (if s.props.casts.get? t = some cast then .ok (value s.cache.log)
    else .done) s

/-- Keeps a representation under a name. -/
def hold (name : String) (r : Representation) : Ending :=
  props .done fun p => { p with held := p.held.put name r }

/-- Whether two names keep one representation; nothing if one keeps none. -/
def same (a b : String) : Ending := ofProps fun p =>
  match p.held.get? a, p.held.get? b with
  | some x, some y => .ok (.truth (x.object = y.object))
  | _, _ => .done

/-- Schedules a load of a package, and sets to it. -/
def schedule (p : NameId) (groups : List Package.Group) : Ending := fun s =>
  let n := s.props.loads.length
  (.load n groups, { s with props := { s.props with
    loads := s.props.loads ++ [none]
    pending := s.props.pending.add p n } })

/-- Notes what came of a load. -/
def settled (n : Nat) (outcome : Except Failure Unit) : Ending :=
  props .done fun p => { p with loads := p.loads.set n (some outcome) }

/-- Takes out the loads of a package, to report on them. -/
def flush (p : NameId) : Ending := fun s =>
  let (loads, pending) := s.props.pending.take p
  (.await p loads, { s with props := { s.props with pending := pending } })

/-- Spawns a description. -/
def spawn (world : WorldId) (d : Unit.Description) : Ending := fun s =>
  let p := s.props
  let (result, entities, systems) :=
    Unit.spawn d world p.components p.entities p.systems
  (.answer (.ofResult (fun e => .count e.raw) result),
    { s with props := { p with entities := entities, systems := systems } })

/-- Creates an entity. -/
def create : Ending := fun s =>
  let (e, entities) := s.props.entities.create
  (.answer (.ok (.count e.raw)),
    { s with props := { s.props with entities := entities } })

/-- Goes on with the value of a result, or answers its failure. -/
def orFail {α : Type} (result : Except Failure α) (f : α → Ending) : Ending :=
  match result with
  | .ok a => f a
  | .error e => answer (.failed e)

end Ending

/-! ### What steps do -/

/-- A program whose result is answered. -/
def answering {α : Type} (p : Program α) (f : α → Answer) : Program Ending := do
  return .answer (f (← p))

/-- A program whose result, if it is one, changes the stage. -/
def ending {α : Type} (p : Program (Except Failure α)) (f : α → Ending) :
    Program Ending := do
  return .orFail (← p) f

/-- A step that asks the cache nothing. -/
def only (e : Ending) : Program Ending := pure e

/-- The program of a step.  Steps that are gone through aside have programs of
their own. -/
def Step.program : Step → Program Ending
  | .register t named cast hooks =>
    ending (Cache.registerKind t (cast.kind t.raw.toNat)) fun _ =>
      .registered t named cast hooks
  | .registerBuiltin => answering Cache.registerBuiltin .ofUnit
  | .hasType t => answering (Program.request (.kind t)) fun (k : Option Kind) =>
    .ok (.truth k.isSome)
  | .kindOf t => answering (Cache.kindOf t) (.ofResult fun _ => .nothing)
  | .tally t =>
    only (.ofCast t .counting fun log => .tally (Tally.ofType t log))
  | .onlineCount t =>
    only (.ofCast t .raw fun log => .count (OnlineCount.ofType t log))
  | .load t names => answering (Cache.load t names) .ofUnit
  | .addLoaded h content => answering (Cache.addLoaded h content) .ofUnit
  | .get h => answering (Cache.get h) (.ofResult fun r => .content r.content)
  | .getAs h shape =>
    answering (Cache.getAs h shape) (.ofResult fun r => .plain r.content)
  | .getOrLoad h =>
    answering (Cache.getOrLoad h) (.ofResult fun r => .content r.content)
  | .canGet h => answering (Cache.canGet h) fun b => .ok (.truth b)
  | .canGetAll t names =>
    answering (Cache.canGetAll t names) fun b => .ok (.truth b)
  | .state h => answering (Cache.state h) fun s => .ok (.state s)
  | .refCount h => answering (Cache.refCount h) fun n => .ok (.count n)
  | .release h => answering (Cache.release h) (.ofResult .count)
  | .stats => answering Cache.stats fun s => .ok (.stats s)
  | .offline h => answering (Cache.offline h) .ofUnit
  | .online h => answering (Cache.online h) .ofUnit
  | .reload h bytes => answering (Cache.reload h bytes) .ofUnit
  | .reloadFromSource t names =>
    answering (Cache.reloadFromSource t names) .ofUnit
  | .reloadAll => answering Cache.reloadAll fun r => .ok (.report r)
  | .unload h => answering (Cache.unload h) .ofUnit
  | .unloadAll t names => answering (Cache.unloadAll t names) .ofUnit
  | .setAutoload on =>
    answering (Program.request (.setAutoload on)) fun _ => .done
  | .autoload =>
    answering (Program.request .autoload) fun (b : Bool) => .ok (.truth b)
  | .hold h name => ending (Cache.get h) fun r => .hold name r
  | .held name => only (.ofProps fun p =>
    .ofOption (fun r => .content r.content) (p.held.get? name))
  | .same a b => only (.same a b)
  | .loadPackage p => ending (Package.manifest p) fun m => .schedule p m.groups
  | .flushPackage p => only (.flush p)
  | .isPackageLoaded p => answering (Package.isLoaded p) fun b => .ok (.truth b)
  | .unloadPackage p => answering (Package.unload p) .ofUnit
  | .spawn world unit =>
    ending (Cache.getUnit (Unit.handle unit)) fun d => .spawn world d
  | .spawnDescription world d => only (.spawn world d)
  | .create => only .create
  | .created => only (.ofProps fun p => .ok (.count p.entities.created))
  | .hasComponent c => only (.ofProps fun p =>
    .ok (.component (p.components.contains c) (p.components.get? c).isSome))
  | .transformOf system world e => only (.ofProps fun p =>
    .ofOption .placed
      ((p.systems.transforms? system).bind fun ts => ts.get? (world, e)))
  | .transforms system => only (.ofProps fun p =>
    .ofOption (fun ts => .size ts.size) (p.systems.transforms? system))
  | .batches system =>
    only (.ofProps fun p => .ofOption .batches (p.systems.batches? system))
  | .put h bytes => only (.source (·.put h bytes))
  | .remove h => only (.remove h)
  | .obstruct h => only (.source (·.obstruct h))
  | .read h => answering (Program.request (.read h))
    fun (r : Except SourceFailure (List UInt8)) =>
      match r with
      | .ok bytes => .ok (.bytes bytes)
      | .error why => .unread why
  | .aside _ => only (.answer .done)

/-- The program that settles a load. -/
def settling (n : Nat) (groups : List Package.Group) : Program Ending := do
  return .settled n (← Package.loadGroups groups)

end ResourceHost.Rehearsal
