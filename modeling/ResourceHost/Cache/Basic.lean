import ResourceHost.Cache.Entry
import ResourceHost.Source

/-!
# The resource cache

A cache knows the kinds of types, where bytes come from, and for each handle a
shelf: the slots made for the handle so far, and which of them, if any, is
listed in the cache's table.  An evicted slot stays on its shelf for those who
still have it in hand; nobody finds it any more.
-/

namespace ResourceHost

/-- What a cache keeps for one handle. -/
structure Shelf where
  /-- The entry of every slot made for the handle, the oldest first. -/
  entries : List Entry := []
  /-- The slot that the table lists. -/
  listed : Option Nat := none

/-- Loaded resources by handle. -/
structure Cache where
  kinds : Table TypeId Kind := Table.empty
  source : Source := .memory Table.empty
  shelves : Table Handle Shelf := Table.empty
  /-- Whether a missing resource is loaded on first use. -/
  autoload : Bool := false
  /-- Every callback made so far, the latest first. -/
  log : List Callback := []

namespace Cache

variable {α : Type}

/-- What the cache keeps for a handle. -/
def shelf (c : Cache) (h : Handle) : Shelf := c.shelves.getD h {}

/-- Changes what the cache keeps for a handle. -/
def setShelf (c : Cache) (h : Handle) (s : Shelf) : Cache :=
  { c with shelves := c.shelves.put h s }

/-- The kind of a type. -/
def kind? (c : Cache) (t : TypeId) : Option Kind := c.kinds.get? t

/-! ### The table -/

/-- The slot that the table lists for a handle. -/
def find? (c : Cache) (h : Handle) : Option SlotId :=
  (c.shelf h).listed.map fun n => ⟨h, n⟩

/-- Whether the table lists a slot for a handle. -/
def isListed (c : Cache) (h : Handle) : Bool := (c.shelf h).listed.isSome

/-- The handles that the table lists. -/
def handles (c : Cache) : List Handle := c.shelves.keys.filter c.isListed

/-- The slots that the table lists. -/
def slots (c : Cache) : List SlotId := c.handles.filterMap c.find?

/-- The slot that a handle would get next. -/
def nextSlot (c : Cache) (h : Handle) : SlotId :=
  ⟨h, (c.shelf h).entries.length⟩

/-- Makes a fresh slot for a handle and lists it. -/
def openSlot (c : Cache) (h : Handle) : Cache :=
  let shelf := c.shelf h
  c.setShelf h ⟨shelf.entries ++ [Entry.fresh], some shelf.entries.length⟩

/-- Takes a slot out of the table, if it is the one that is listed. -/
def evict (c : Cache) (s : SlotId) : Cache :=
  let shelf := c.shelf s.handle
  if shelf.listed = some s.turn then
    c.setShelf s.handle { shelf with listed := none }
  else c

/-! ### Slots -/

/-- The entry in a slot. -/
def entry? (c : Cache) (s : SlotId) : Option Entry :=
  (c.shelf s.handle).entries[s.turn]?

/-- The entry in a slot; that of a slot that was never made is unloaded. -/
def entry (c : Cache) (s : SlotId) : Entry :=
  (c.entry? s).getD { state := .unloaded }

/-- Changes the entry in a slot. -/
def setEntry (c : Cache) (s : SlotId) (e : Entry) : Cache :=
  let shelf := c.shelf s.handle
  c.setShelf s.handle { shelf with entries := shelf.entries.set s.turn e }

/-- The entry that the table lists for a handle. -/
def lookup? (c : Cache) (h : Handle) : Option Entry := (c.find? h).bind c.entry?

/-- Adds callbacks, made one after another, to the log. -/
def record (c : Cache) (callbacks : List Callback) : Cache :=
  { c with log := callbacks.reverse ++ c.log }

/-- Carries out a section on a slot, from taking the lock to letting it go. -/
def carryOut (c : Cache) (s : SlotId) (sec : Section α) : Cache :=
  let c := (c.record (sec.calls.map Call.callback)).setEntry s sec.entry
  if sec.evicts then c.evict s else c

/-! ### Operations, each run alone -/

/-- Registers the kind of a type. -/
def register (c : Cache) (t : TypeId) (k : Kind) :
    Except Failure Unit × Cache :=
  if c.kinds.contains t then (.error (.typeTaken t), c)
  else (.ok (), { c with kinds := c.kinds.put t k })

/-- Carries out an operation on the entry of a handle. -/
def visit (c : Cache) (h : Handle) (v : Visit) : v.Reply × Cache :=
  match c.find? h with
  | none => (v.absent h, c)
  | some s =>
    let sec := v.inside h (c.kind? h.type) (c.entry s)
    (sec.answer, c.carryOut s sec)

/-- Loads the resource of a fresh slot: its bytes, then what its kind makes of
them.  The kind is called only if there are bytes. -/
def fetch (c : Cache) (s : SlotId) (k : Kind) :
    Except Failure Representation × Cache :=
  match c.source.read s.handle with
  | .error why => (.error (.noBytes s.handle why), c)
  | .ok bytes =>
    match k.load s.handle bytes with
    | .ok content =>
      let r := Entry.firstObject s content
      (.ok r, c.record [.load k s.handle bytes (.ok r)])
    | .error f =>
      (.error (.loader s.handle f),
        c.record [.load k s.handle bytes (.error f)])

/-- Loads a handle in a fresh slot. -/
def loadFresh (c : Cache) (h : Handle) (k : Kind) :
    Except Failure Unit × Cache :=
  let s := c.nextSlot h
  let (outcome, c) := (c.openSlot h).fetch s k
  let sec := (c.entry s).settle h k outcome
  (sec.answer, c.carryOut s sec)

/-- Makes sure that a handle is loaded, and takes a reference to it.  A caller
that runs alone never finds a load under way or a slot that is gone. -/
def acquire (c : Cache) (h : Handle) (k : Kind) : Except Failure Unit × Cache :=
  match c.find? h with
  | none => c.loadFresh h k
  | some s =>
    match (c.entry s).join? with
    | some sec => (sec.answer, c.carryOut s sec)
    | none => c.loadFresh h k

/-- Lists a content that was made outside the cache. -/
def add (c : Cache) (h : Handle) (k : Kind) (content : Content) :
    Except Failure Unit × Cache :=
  if c.isListed h then (.error (.alreadyLoaded h), c)
  else
    let s := c.nextSlot h
    let c := c.openSlot h
    let sec := (c.entry s).settle h k (.ok (Entry.firstObject s content))
    (sec.answer, c.carryOut s sec)

end Cache

end ResourceHost
