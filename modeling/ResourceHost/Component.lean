import ResourceHost.Table
import ResourceHost.Transform

/-!
# Entities and components

Entities are numbered as they are created.  A component type has a spawner,
which is handed a batch of entities with one record for each and changes the
state that its components live in.
-/

namespace ResourceHost

/-- An entity: how many were created before it. -/
structure EntityId where
  raw : Nat
  deriving DecidableEq, Repr

/-- A world that entities are spawned into. -/
structure WorldId where
  raw : UInt32
  deriving DecidableEq, Repr

/-- Numbers entities. -/
structure Allocator where
  /-- How many entities were created. -/
  created : Nat := 0
  deriving DecidableEq, Repr

namespace Allocator

/-- Creates an entity. -/
def create (a : Allocator) : EntityId × Allocator :=
  (⟨a.created⟩, ⟨a.created + 1⟩)

/-- Creates `n` entities with consecutive numbers, and gives the first. -/
def createMany (a : Allocator) (n : Nat) : EntityId × Allocator :=
  (⟨a.created⟩, ⟨a.created + n⟩)

end Allocator

/-- Creates components of one type, in a state of type `σ`. -/
structure Spawner (σ : Type) where
  spawn : WorldId → List EntityId → List Param.Record → σ →
    Except Failure Unit × σ

/-- The spawners of component types. -/
abbrev Components (σ : Type) := Table ComponentId (Spawner σ)

/-! ### Transforms -/

/-- The transforms of entities in their worlds. -/
abbrev Transforms := Table (WorldId × EntityId) Transform

namespace Transforms

/-- Stores transforms for entities, pair by pair. -/
def store (world : WorldId) :
    List (EntityId × Transform) → Transforms → Transforms
  | [], ts => ts
  | (e, t) :: rest, ts => store world rest (ts.put (world, e) t)

/-- Reads all records before any transform is stored. -/
def spawn (world : WorldId) (entities : List EntityId)
    (records : List Param.Record) (ts : Transforms) :
    Except Failure Unit × Transforms :=
  match Transform.ofRecords records with
  | .error f => (.error f, ts)
  | .ok parsed => (.ok (), store world (entities.zip parsed) ts)

/-- The spawner of transforms. -/
def spawner : Spawner Transforms := ⟨spawn⟩

end Transforms

end ResourceHost
