import ResourceHost.Kind

/-!
# Cache entries

An entry lives in a slot and moves through a fixed lifecycle:

    Unloaded -> Loading -> Loaded -> Online <-> Offline -> Unloading -> Unloaded
    Loading -> Unloaded, when the loader fails

Whoever holds the lock of a slot runs one `Section` on its entry: some
callbacks of the resource's kind, one after another, and the entry as the lock
is let go.  What an operation does to an entry is a function from the entry to
a section; such a function is the same whether the operation runs alone or
among others.
-/

namespace ResourceHost

/-! ### What is kept -/

/-- One slot: the `turn`-th that was made for its handle. -/
structure SlotId where
  handle : Handle
  turn : Nat
  deriving DecidableEq, Repr

/-- One representation: the `serial`-th that its slot has held. -/
structure ObjectId where
  slot : SlotId
  serial : Nat
  deriving DecidableEq, Repr

/-- The in-memory form of a loaded resource, shared by all readers.  Two
representations are the same object exactly if they have one `object`. -/
structure Representation where
  object : ObjectId
  content : Content

/-- Where an entry stands in its lifecycle. -/
inductive State where
  | unloaded
  | loading
  | loaded
  | online
  | offline
  | unloading
  deriving DecidableEq, Repr

/-- What a slot holds. -/
structure Entry where
  state : State
  held : Option Representation := none
  /-- How many references are taken.  A counter of 32 bits would do: claims
  about counts are made for fewer than `2 ^ 32` references at a time. -/
  refCount : Nat := 0
  /-- Why the load that the slot was made for failed. -/
  failure : Option Failure := none

/-- The entry of a fresh slot. -/
def Entry.fresh : Entry := { state := .loading }

/-! ### What a kind is told -/

/-- A callback of a resource's kind: the kind that it went to, its arguments and
what came out. -/
inductive Callback where
  | load (k : Kind) (h : Handle) (bytes : List UInt8)
      (outcome : Except Failure Representation)
  | online (k : Kind) (h : Handle) (r : Representation)
  | offline (k : Kind) (h : Handle) (r : Representation)
  | reload (k : Kind) (h : Handle) (old : Representation) (bytes : List UInt8)
      (outcome : Except Failure Representation)
  | unload (k : Kind) (h : Handle) (r : Representation)

namespace Callback

/-- The kind that a callback went to. -/
def receiver : Callback → Kind
  | .load k _ _ _ | .online k _ _ | .offline k _ _ | .reload k _ _ _ _
  | .unload k _ _ => k

/-- The handle that a callback is about. -/
def handle : Callback → Handle
  | .load _ h _ _ | .online _ h _ | .offline _ h _ | .reload _ h _ _ _
  | .unload _ h _ => h

end Callback

/-- A callback, and the entry as it stands while the callback runs. -/
structure Call where
  callback : Callback
  entry : Entry

/-- What the holder of a slot's lock does. -/
structure Section (α : Type) where
  /-- The callbacks, in their order. -/
  calls : List Call := []
  /-- The entry as the lock is let go. -/
  entry : Entry
  /-- Whether the slot leaves the table before the lock is let go. -/
  evicts : Bool := false
  answer : α

namespace Entry

variable {α : Type}

/-- Leaves the entry as it is. -/
def answering (e : Entry) (a : α) : Section α := { entry := e, answer := a }

/-! ### Loading -/

/-- The first representation of a slot. -/
def firstObject (s : SlotId) (content : Content) : Representation :=
  ⟨⟨s, 0⟩, content⟩

/-- The representation after `old` in its slot. -/
def nextObject (old : Representation) (content : Content) : Representation :=
  ⟨⟨old.object.slot, old.object.serial + 1⟩, content⟩

/-- Ends the load that the slot was made for. -/
def settle (h : Handle) (kind : Kind) (outcome : Except Failure Representation)
    (e : Entry) : Section (Except Failure Unit) :=
  match outcome with
  | .ok r =>
    { calls := [⟨.online kind h r, { e with state := .loaded }⟩]
      entry := { e with state := .online, held := some r, refCount := 1 }
      answer := .ok () }
  | .error f =>
    { entry := { e with state := .unloaded, failure := some f }
      evicts := true
      answer := .error f }

/-- Joins a load that another caller began and that has settled: one more
reference, or the failure of that load.  None if the slot has been unloaded
meanwhile: then the caller starts over. -/
def join? (e : Entry) : Option (Section (Except Failure Unit)) :=
  match e.state with
  | .online | .offline =>
    some { entry := { e with refCount := e.refCount + 1 }, answer := .ok () }
  | _ => e.failure.map fun f => e.answering (.error f)

end Entry

/-! ### Operations on one entry -/

/-- An operation on the entry of one handle, if the handle has one. -/
inductive Visit where
  | get
  | state
  | refCount
  | release
  | offline
  | online
  | reload (bytes : List UInt8)
  | unload

namespace Visit

/-- What an operation answers. -/
abbrev Reply : Visit → Type
  | .get => Except Failure Representation
  | .state => State
  | .refCount => Nat
  | .release => Except Failure Nat
  | .offline | .online | .reload _ | .unload => Except Failure Unit

/-- The answer for a handle that has no entry. -/
def absent (h : Handle) : (v : Visit) → v.Reply
  | .get => (.error (.notLoaded h) : Except Failure Representation)
  | .state => State.unloaded
  | .refCount => (0 : Nat)
  | .release => (.error (.notLoaded h) : Except Failure Nat)
  | .offline => (.ok () : Except Failure Unit)
  | .online => (.error (.notLoaded h) : Except Failure Unit)
  | .reload _ => (.error (.notLoaded h) : Except Failure Unit)
  | .unload => (.ok () : Except Failure Unit)

/-- When an operation asks for the kind of the handle's type. -/
inductive Consults where
  | never
  /-- Between finding the slot and taking its lock. -/
  | before
  /-- Under the lock of the slot. -/
  | inside
  deriving DecidableEq

/-- When an operation asks for the kind. -/
def consults : Visit → Consults
  | .reload _ | .unload => .before
  | .offline | .online => .inside
  | _ => .never

end Visit

namespace Entry

/-- A callback about what the entry holds, if it holds anything. -/
def callHeld (e : Entry) (callback : Representation → Callback)
    (during : Entry) : List Call :=
  match e.held with
  | some r => [⟨callback r, during⟩]
  | none => []

/-- The representation of an entry that is online. -/
def get (h : Handle) (e : Entry) : Except Failure Representation :=
  match e.state, e.held with
  | .online, some r => .ok r
  | _, _ => .error (.notLoaded h)

/-- Drops a reference, if there is one. -/
def release (e : Entry) : Section (Except Failure Nat) :=
  { entry := { e with refCount := e.refCount - 1 },
    answer := .ok (e.refCount - 1) }

/-- Takes an entry that is online offline. -/
def takeOffline (h : Handle) (kind? : Option Kind) (e : Entry) :
    Section (Except Failure Unit) :=
  match e.state with
  | .online =>
    match kind? with
    | none => e.answering (.error (.unknownType h.type))
    | some kind =>
      { calls := e.callHeld (.offline kind h) e
        entry := { e with state := .offline }
        answer := .ok () }
  | .offline | .unloaded => e.answering (.ok ())
  | _ => e.answering (.error (.notLoaded h))

/-- Brings an entry that is offline online. -/
def bringOnline (h : Handle) (kind? : Option Kind) (e : Entry) :
    Section (Except Failure Unit) :=
  match e.state with
  | .online => e.answering (.ok ())
  | .offline =>
    match kind? with
    | none => e.answering (.error (.unknownType h.type))
    | some kind =>
      { calls := e.callHeld (.online kind h) e
        entry := { e with state := .online }
        answer := .ok () }
  | _ => e.answering (.error (.notLoaded h))

/-- Replaces `old`, which the entry holds, by what its kind makes of new
bytes.  An entry that is online is taken offline first; if the bytes are
refused it comes back online with `old`. -/
def replace (h : Handle) (kind : Kind) (old : Representation)
    (bytes : List UInt8) (e : Entry) : Section (Except Failure Unit) :=
  let wasOnline := decide (e.state = .online)
  let down := { e with state := .offline }
  let first : List Call := if wasOnline then [⟨.offline kind h old, e⟩] else []
  match kind.reload h old.content bytes with
  | .ok content =>
    let new := nextObject old content
    { calls := first ++
        [⟨.reload kind h old bytes (.ok new), down⟩, ⟨.online kind h new, down⟩]
      entry := { e with state := .online, held := some new }
      answer := .ok () }
  | .error f =>
    { calls := first ++ ⟨.reload kind h old bytes (.error f), down⟩ ::
        (if wasOnline then [⟨.online kind h old, down⟩] else [])
      entry := e
      answer := .error (.reload h f) }

/-- Replaces what a loaded entry holds. -/
def reload (h : Handle) (kind? : Option Kind) (bytes : List UInt8) (e : Entry) :
    Section (Except Failure Unit) :=
  match kind? with
  | none => e.answering (.error (.unknownType h.type))
  | some kind =>
    match e.state, e.held with
    | .online, some old => e.replace h kind old bytes
    | .offline, some old => e.replace h kind old bytes
    | _, _ => e.answering (.error (.notLoaded h))

/-- Evicts a loaded entry, whatever its reference count. -/
def unload (h : Handle) (kind? : Option Kind) (e : Entry) :
    Section (Except Failure Unit) :=
  match kind? with
  | none => e.answering (.error (.unknownType h.type))
  | some kind =>
    let gone : Section (Except Failure Unit) :=
      { calls :=
          (if e.state = .online then e.callHeld (.offline kind h) e else [])
            ++ e.callHeld (.unload kind h)
              { e with state := .unloading, held := none }
        entry := { e with state := .unloaded, held := none, refCount := 0 }
        evicts := true
        answer := .ok () }
    match e.state with
    | .online | .offline => gone
    | .unloaded => e.answering (.ok ())
    | _ => e.answering (.error (.notLoaded h))

end Entry

namespace Visit

/-- What an operation does under the lock of the slot that it found. -/
def inside (h : Handle) (kind? : Option Kind) (e : Entry) :
    (v : Visit) → Section v.Reply
  | .get => e.answering (e.get h)
  | .state => e.answering e.state
  | .refCount => e.answering e.refCount
  | .release => e.release
  | .offline => e.takeOffline h kind?
  | .online => e.bringOnline h kind?
  | .reload bytes => e.reload h kind? bytes
  | .unload => e.unload h kind?

end Visit

end ResourceHost
