import ResourceHost.Cache.Entry
import ResourceHost.Component
import ResourceHost.Text.Utf8

/-!
# Fixtures

Kinds and component spawners that stand in for real ones when the cache is
tried out.  The kinds read texts: bytes that are no UTF-8 are refused, and so
are the texts `bad` and `worse`.  Two of them tell of their callbacks.
-/

namespace ResourceHost.Rehearsal

/-! ### Kinds -/

/-- What a type can be registered as. -/
inductive Cast where
  | unit
  | package
  | config
  | raw
  /-- Texts; the callbacks are counted. -/
  | counting
  /-- Texts, without anything else. -/
  | minimal
  /-- Texts; the callbacks are told. -/
  | text
  /-- Texts, where a new text goes behind the old; the callbacks are told. -/
  | merge
  deriving DecidableEq, Repr

/-- The text of bytes, unless it is one to be refused. -/
def readText (refused : String → Option Failure) (bytes : List UInt8) :
    Except Failure String :=
  match Text.ofBytes? bytes with
  | none => .error .notUtf8
  | some s =>
    match refused s with
    | some f => .error f
    | none => .ok s

/-- Refuses one text. -/
def refuseBad (s : String) : Option Failure :=
  if s = "bad" then some (.told "rejected input") else none

/-- Refuses one text, and another for a reason with a reason of its own. -/
def refuseWorse (s : String) : Option Failure :=
  if s = "worse" then
    some (.during (.other "outer reason") (.told "inner reason"))
  else refuseBad s

/-- The text that a content is, if it is one. -/
def textOf? : Content → Option String
  | .text s => some s
  | _ => none

/-- The text that a content is, `?` if it is none. -/
def textOf (c : Content) : String := (textOf? c).getD "?"

/-- Texts. -/
def textKind (identity : Nat) (refused : String → Option Failure) : Kind where
  identity
  load _ bytes := (readText refused bytes).map .text

/-- Texts that go behind the old text. -/
def mergeKind (identity : Nat) : Kind where
  identity
  load _ bytes := (readText refuseWorse bytes).map .text
  reload _ old bytes :=
    (readText refuseWorse bytes).map fun s => .text (textOf old ++ ">" ++ s)

namespace Cast

/-- The kind of a role, made for one registration. -/
def kind (identity : Nat) : Cast → Kind
  | .unit => { Kind.unit with identity }
  | .package => { Kind.package with identity }
  | .config => { Kind.config with identity }
  | .raw => Kind.raw identity
  | .counting => textKind identity refuseBad
  | .minimal => textKind identity refuseWorse
  | .text => textKind identity refuseWorse
  | .merge => mergeKind identity

end Cast

/-! ### What is told of callbacks -/

/-- The callbacks that are told of. -/
inductive Cue where
  | load
  | online
  | offline
  | reload
  | unload
  deriving DecidableEq, Repr

/-- What is told of a callback: what it is, and the bytes it was given or the
text it is about. -/
def tell (cast : Cast) (c : Callback) : Option (Cue × String) :=
  match cast, c with
  | .text, .load _ _ bytes _ | .merge, .load _ _ bytes _ =>
    some (.load, Text.lossy bytes)
  | .text, .reload _ _ _ bytes _ => some (.load, Text.lossy bytes)
  | .merge, .reload _ _ old _ _ => some (.reload, textOf old.content)
  | .text, .online _ _ r | .merge, .online _ _ r =>
    some (.online, textOf r.content)
  | .text, .offline _ _ r | .merge, .offline _ _ r =>
    some (.offline, textOf r.content)
  | .text, .unload _ _ r | .merge, .unload _ _ r =>
    some (.unload, textOf r.content)
  | _, _ => none

/-! ### Components -/

/-- What a component can be registered as. -/
inductive Part where
  /-- Stores transforms. -/
  | transform
  /-- Keeps the batches that it is handed. -/
  | recorder
  /-- Refuses every batch. -/
  | failing
  deriving DecidableEq, Repr

/-- A batch that was handed to a spawner. -/
structure Batch where
  world : WorldId
  entities : List EntityId
  records : List Param.Record

/-- What the components have kept, by the name they were registered under. -/
structure Systems where
  stores : Table String Transforms := Table.empty
  /-- The latest batch of a name stands first. -/
  batches : Table String (List Batch) := Table.empty

namespace Systems

/-- The transforms of a component. -/
def transforms? (s : Systems) (name : String) : Option Transforms :=
  s.stores.get? name

/-- The batches of a component, in the order in which it was handed them. -/
def batches? (s : Systems) (name : String) : Option (List Batch) :=
  (s.batches.get? name).map List.reverse

end Systems

namespace Part

/-- What a component has kept before anything is spawned. -/
def install (name : String) (s : Systems) : Part → Systems
  | .transform => { s with stores := s.stores.put name Table.empty }
  | .recorder => { s with batches := s.batches.put name [] }
  | .failing => s

/-- Stores transforms under a name. -/
def storeUnder (name : String) (world : WorldId) (entities : List EntityId)
    (records : List Param.Record) (s : Systems) :
    Except Failure Unit × Systems :=
  let (result, ts) :=
    Transforms.spawn world entities records (s.stores.getD name Table.empty)
  (result, { s with stores := s.stores.put name ts })

/-- Keeps a batch under a name. -/
def recordUnder (name : String) (b : Batch) (s : Systems) : Systems :=
  { s with batches := s.batches.put name (b :: s.batches.getD name []) }

/-- Why a batch is refused. -/
def refusal (entities : List EntityId) : Failure :=
  .during (.other "failing component")
    (.told ("refused " ++ Decimal.ofNat entities.length ++ " entities"))

/-- The spawner of a component that is registered under a name. -/
def spawner (name : String) : Part → Spawner Systems
  | .transform => ⟨storeUnder name⟩
  | .recorder => ⟨fun world entities records s =>
      (.ok (), recordUnder name ⟨world, entities, records⟩ s)⟩
  | .failing => ⟨fun _ entities _ s => (.error (refusal entities), s)⟩

/-- The spawners of components, the later of two with one name. -/
def register (parts : List (String × Part)) : Components Systems :=
  parts.foldl (fun cs (name, part) =>
    cs.put (Id.ofName name) (part.spawner name)) Table.empty

/-- What components have kept before anything is spawned. -/
def installAll (parts : List (String × Part)) : Systems :=
  parts.foldl (fun s (name, part) => part.install name s) {}

end Part

end ResourceHost.Rehearsal
