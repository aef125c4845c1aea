import ResourceHost.Cache.Program

/-!
# Threads that share a cache

Several threads, each with a program of its own, use one cache.  A thread
moves in small steps from point to point within the request that it is at, and
between two steps any other thread may move.  Locks are not kept apart from
the threads: a lock is held by the thread whose point says so.

There is a lock for each slot, held while a section runs with its callbacks,
and two leaf locks, for the table and for the registry of kinds, which are
held for one look only.  The source is read and a resource is loaded without
any lock.
-/

namespace ResourceHost

/-! ### Points -/

/-- A lock that is held for one look only. -/
inductive Leaf where
  /-- The lock of the table of slots. -/
  | table
  /-- The lock of the registry of kinds. -/
  | registry
  deriving DecidableEq, Repr

/-- The leaf lock under which a request is begun, if it needs one. -/
def Request.leaf? : Request → Option Leaf
  | .kind _ | .register _ _ => some .registry
  | .isListed _ | .handles | .slots | .acquire _ _ | .add _ _ _ | .visit _ _ =>
    some .table
  | .autoload | .setAutoload _ | .stateOf _ | .read _ => none

/-- What a thread is after under the lock of a slot. -/
inductive Errand : Request → Type where
  /-- Ends the load that the thread made the slot for. -/
  | settle {h : Handle} {k : Kind} (outcome : Except Failure Representation) :
      Errand (.acquire h k)
  /-- Joins a load that another thread made the slot for. -/
  | join {h : Handle} {k : Kind} : Errand (.acquire h k)
  /-- Fills the slot, which the thread made, with a content. -/
  | introduce {h : Handle} {k : Kind} {c : Content} : Errand (.add h k c)
  /-- Carries out an operation, with what the registry told of the kind. -/
  | visit {h : Handle} {v : Visit} (kind? : Option Kind) : Errand (.visit h v)
  /-- Looks at the state. -/
  | look {s : SlotId} : Errand (.stateOf s)

namespace Errand

/-- What is done to an entry; none if the thread has to start over. -/
def section? {r : Request} :
    Errand r → SlotId → Entry → Option (Section r.Reply)
  | .settle (h := h) (k := k) outcome, _, e => some (e.settle h k outcome)
  | .join, _, e => e.join?
  | .introduce (h := h) (k := k) (c := c), s, e =>
    some (e.settle h k (.ok (Entry.firstObject s c)))
  | .visit (h := h) (v := v) kind?, _, e => some (v.inside h kind? e)
  | .look, _, e => some (e.answering e.state)

/-- Whether a thread has to wait until the load of an entry is settled. -/
def waits {r : Request} : Errand r → Entry → Bool
  | .join, e => e.state = .loading
  | _, _ => false

/-- When a thread asks the registry for the kind. -/
def consults {r : Request} : Errand r → Visit.Consults
  | .visit (v := v) _ => v.consults
  | _ => .never

/-- The errand after the registry has been asked. -/
def informed {r : Request} (kind? : Option Kind) : Errand r → Errand r
  | .visit _ => .visit kind?
  | errand => errand

/-- Whether those who wait for the slot are woken after a section. -/
def wakes {r : Request} (evicts : Bool) : Errand r → Bool
  | .settle _ | .introduce => true
  | .visit _ => evicts
  | .join | .look => false

end Errand

/-- How a thread holds the lock of a slot. -/
structure Hold (r : Request) where
  slot : SlotId
  /-- What it is after. -/
  errand : Errand r
  /-- What it does there. -/
  sec : Section r.Reply

/-- Whether it wakes those who wait, once it has let the slot go. -/
def Hold.wakes {r : Request} (hold : Hold r) : Bool :=
  hold.errand.wakes hold.sec.evicts

/-- Where a thread stands within a request. -/
inductive Point : Request → Type where
  /-- About to begin, or to begin again. -/
  | start {r : Request} : Point r
  /-- Holds the leaf lock under which the request is begun. -/
  | begun {r : Request} : Point r
  /-- About to ask the registry about a slot, with or without the slot's
  lock. -/
  | consult {r : Request} (s : SlotId) (errand : Errand r) (locked : Bool) :
      Point r
  /-- Holds the lock of the registry. -/
  | consulting {r : Request} (s : SlotId) (errand : Errand r) (locked : Bool) :
      Point r
  /-- About to read the bytes for a slot that the thread made. -/
  | fetch {h : Handle} {k : Kind} (s : SlotId) : Point (.acquire h k)
  /-- Within the callback that loads bytes. -/
  | loading {h : Handle} {k : Kind} (s : SlotId) (bytes : List UInt8) :
      Point (.acquire h k)
  /-- About to take the lock of a slot. -/
  | enter {r : Request} (s : SlotId) (errand : Errand r) : Point r
  /-- Asleep until those who wait for a slot are woken. -/
  | parked {r : Request} (s : SlotId) (errand : Errand r) : Point r
  /-- Holds the lock of a slot, with callbacks still to be made. -/
  | inside {r : Request} (hold : Hold r) (calls : List Call) : Point r
  /-- Within a callback under the lock of a slot. -/
  | calling {r : Request} (hold : Hold r) (call : Call) (rest : List Call) :
      Point r
  /-- About to take the slot out of the table. -/
  | evict {r : Request} (hold : Hold r) : Point r
  /-- Holds the lock of the table to take the slot out. -/
  | evicting {r : Request} (hold : Hold r) : Point r
  /-- Has let a slot go, and is about to wake those who wait for it. -/
  | rouse {r : Request} (s : SlotId) (answer : r.Reply) : Point r

namespace Point

variable {r : Request}

/-- The slot whose lock a thread holds. -/
def slot? : Point r → Option SlotId
  | .consult s _ true | .consulting s _ true => some s
  | .inside hold _ | .calling hold _ _ | .evict hold | .evicting hold =>
    some hold.slot
  | _ => none

/-- The leaf lock that a thread holds. -/
def leaf? : Point r → Option Leaf
  | .begun => r.leaf?
  | .consulting _ _ _ => some .registry
  | .evicting _ => some .table
  | _ => none

/-- The callback that a thread is within. -/
def callback? : Point r → Option Callback
  | .loading (k := k) s bytes =>
    some (.load k s.handle bytes (match k.load s.handle bytes with
      | .ok content => .ok (Entry.firstObject s content)
      | .error f => .error f))
  | .calling _ call _ => some call.callback
  | _ => none

/-- A thread that is woken, if it waits for a slot. -/
def woken (s : SlotId) : Point r → Point r
  | .parked s' errand => if s' = s then .enter s' errand else .parked s' errand
  | p => p

end Point

/-! ### Moves -/

/-- What other threads leave free. -/
structure Free where
  leaf : Leaf → Bool
  slot : SlotId → Bool

/-- What a step makes of a thread within a request, and of the cache. -/
inductive Move (r : Request) where
  /-- The thread cannot move. -/
  | blocked
  | go (p : Point r) (c : Cache)
  /-- The request is answered, and those who wait for a slot are woken. -/
  | reply (answer : r.Reply) (wakes : Option SlotId) (c : Cache)

namespace Move

/-- Begins a request, under its leaf lock if it has one. -/
def begin (r : Request) (c : Cache) : Move r :=
  match r with
  | .stateOf s => .go (.enter s .look) c
  | .acquire h _ =>
    match c.find? h with
    | some s => .go (.enter s .join) c
    | none => .go (.fetch (c.nextSlot h)) (c.openSlot h)
  | .add h _ _ =>
    if c.isListed h then .reply (.error (.alreadyLoaded h)) none c
    else .go (.enter (c.nextSlot h) .introduce) (c.openSlot h)
  | .visit h v =>
    match c.find? h with
    | none => .reply (v.absent h) none c
    | some s =>
      if v.consults = .before then .go (.consult s (.visit none) false) c
      else .go (.enter s (.visit none)) c
  | r => .reply (r.run c).1 none (r.run c).2

/-- Sets to work under the lock of a slot. -/
def work {r : Request} (s : SlotId) (errand : Errand r) (c : Cache) : Move r :=
  match errand.section? s (c.entry s) with
  | some sec => .go (.inside ⟨s, errand, sec⟩ sec.calls) c
  | none => .go .start c

/-- Takes the lock of a slot: to fall asleep, to ask for the kind, or to
work. -/
def enter {r : Request} (s : SlotId) (errand : Errand r) (c : Cache) : Move r :=
  if errand.waits (c.entry s) then .go (.parked s errand) c
  else if errand.consults = .inside then .go (.consult s errand true) c
  else work s errand c

/-- Lets the lock of a slot go. -/
def leave {r : Request} (hold : Hold r) (c : Cache) : Move r :=
  let c := c.setEntry hold.slot hold.sec.entry
  if hold.wakes then .go (.rouse hold.slot hold.sec.answer) c
  else .reply hold.sec.answer none c

/-- Reads the bytes for a slot and hands them to the kind. -/
def fetch {h : Handle} {k : Kind} (s : SlotId) (c : Cache) :
    Move (.acquire h k) :=
  match c.source.read s.handle with
  | .error why => .go (.enter s (.settle (.error (.noBytes s.handle why)))) c
  | .ok bytes =>
    let p : Point (.acquire h k) := .loading s bytes
    .go p (c.record p.callback?.toList)

/-- What comes of loading bytes. -/
def loaded {h : Handle} {k : Kind} (s : SlotId) (bytes : List UInt8)
    (c : Cache) : Move (.acquire h k) :=
  let outcome : Except Failure Representation :=
    match k.load s.handle bytes with
    | .ok content => .ok (Entry.firstObject s content)
    | .error f => .error (.loader s.handle f)
  .go (.enter s (.settle outcome)) c

/-- The next step of a thread within a request. -/
def next {r : Request} (free : Free) : Point r → Cache → Move r
  | .start, c =>
    match r.leaf? with
    | none => begin r c
    | some leaf => if free.leaf leaf then .go .begun c else .blocked
  | .begun, c => begin r c
  | .consult s errand locked, c =>
    if free.leaf .registry then .go (.consulting s errand locked) c
    else .blocked
  | .consulting s errand locked, c =>
    let errand := errand.informed (c.kind? s.handle.type)
    if locked then work s errand c else .go (.enter s errand) c
  | .fetch s, c => fetch s c
  | .loading s bytes, c => loaded s bytes c
  | .enter s errand, c => if free.slot s then enter s errand c else .blocked
  | .parked _ _, _ => .blocked
  | .inside hold (call :: rest), c =>
    .go (.calling hold call rest)
      ((c.record [call.callback]).setEntry hold.slot call.entry)
  | .inside hold [], c =>
    if hold.sec.evicts then .go (.evict hold) c else leave hold c
  | .calling hold _ rest, c => .go (.inside hold rest) c
  | .evict hold, c =>
    if free.leaf .table then .go (.evicting hold) c else .blocked
  | .evicting hold, c => leave hold (c.evict hold.slot)
  | .rouse s answer, c => .reply answer (some s) c

end Move

/-! ### Threads and machines -/

/-- A thread. -/
inductive Thread (α : Type) where
  | finished (a : α)
  /-- At a point of a request, with the program that follows the answer. -/
  | busy (r : Request) (point : Point r) (next : r.Reply → Program α)

namespace Thread

variable {α : Type}

/-- The thread that runs a program. -/
def ofProgram : Program α → Thread α
  | .done a => .finished a
  | .ask r next => .busy r .start next

/-- The slot whose lock a thread holds. -/
def slot? : Thread α → Option SlotId
  | .finished _ => none
  | .busy _ p _ => p.slot?

/-- The leaf lock that a thread holds. -/
def leaf? : Thread α → Option Leaf
  | .finished _ => none
  | .busy _ p _ => p.leaf?

/-- The callback that a thread is within. -/
def callback? : Thread α → Option Callback
  | .finished _ => none
  | .busy _ p _ => p.callback?

/-- Whether a thread is between two requests, or through with all of them. -/
def atRest : Thread α → Bool
  | .finished _ => true
  | .busy _ .start _ => true
  | .busy _ _ _ => false

/-- A thread that is woken, if it waits for a slot. -/
def woken (s : SlotId) : Thread α → Thread α
  | .finished a => .finished a
  | .busy r p next => .busy r (p.woken s) next

end Thread

/-- Threads that share a cache. -/
structure Machine (α : Type) where
  cache : Cache
  threads : List (Thread α) := []

namespace Machine

variable {α : Type}

/-- What the threads leave free. -/
def free (m : Machine α) : Free where
  leaf l := m.threads.all fun t => t.leaf? ≠ some l
  slot s := m.threads.all fun t => t.slot? ≠ some s

/-- Starts a thread behind the others. -/
def start (m : Machine α) (p : Program α) : Machine α :=
  { m with threads := m.threads ++ [Thread.ofProgram p] }

/-- Wakes the threads that wait for a slot. -/
def wake (s? : Option SlotId) (threads : List (Thread α)) : List (Thread α) :=
  match s? with
  | some s => threads.map (Thread.woken s)
  | none => threads

/-- A step of one thread; none if it is through or cannot move. -/
def step (m : Machine α) (i : Nat) : Option (Machine α) :=
  match m.threads[i]? with
  | some (.busy r p next) =>
    match Move.next m.free p m.cache with
    | .blocked => none
    | .go p' c => some ⟨c, m.threads.set i (.busy r p' next)⟩
    | .reply a s? c =>
      some ⟨c, (wake s? m.threads).set i (Thread.ofProgram (next a))⟩
  | _ => none

end Machine

end ResourceHost
