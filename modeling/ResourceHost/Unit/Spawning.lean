import ResourceHost.Cache.Operations
import ResourceHost.Component

/-!
# Spawning units

Spawning a description creates its entities, whose numbers follow one another,
and hands each group to the spawner of its component, in order.  A description
that is not valid creates nothing.  Once entities are there they stay, even if
a group fails; the groups after it are not looked at.
-/

namespace ResourceHost.Unit

variable {σ : Type}

/-- The entity of an index within a unit whose root is `root`. -/
def entityAt (root : EntityId) (index : Nat) : EntityId := ⟨root.raw + index⟩

/-- Hands groups to their spawners, up to the first that fails. -/
def spawnGroups (components : Components σ) (world : WorldId)
    (root : EntityId) : List Group → σ → Except Failure Unit × σ
  | [], s => (.ok (), s)
  | g :: gs, s =>
    match components.get? g.component with
    | none => (.error (.unknownComponent g.component), s)
    | some spawner =>
      match
        spawner.spawn world (g.entities.map (entityAt root)) g.records s with
      | (.ok (), s') => spawnGroups components world root gs s'
      | (.error f, s') => (.error (.spawner g.component f), s')

/-- Spawns a description into a world and gives its root. -/
def spawn (d : Description) (world : WorldId) (components : Components σ)
    (a : Allocator) (s : σ) : Except Failure EntityId × Allocator × σ :=
  match d.validate with
  | .error f => (.error f, a, s)
  | .ok () =>
    let (root, a') := a.createMany d.entityCount
    match spawnGroups components world root d.groups s with
    | (.ok (), s') => (.ok root, a', s')
    | (.error f, s') => (.error f, a', s')

/-- The handle of a unit. -/
def handle (name : NameId) : Handle := ⟨Kind.unitType, name⟩

end ResourceHost.Unit
