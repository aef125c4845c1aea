import ResourceHost.Cache.Basic

/-!
# Programs over a cache

A request is one use of a cache that other callers can see only as a whole or
between its locks; a program asks one request after another, each depending on
the answers before it.  The same program can be run alone, by `Program.run`,
or as one of several threads that share a cache.
-/

namespace ResourceHost

/-- One use of a cache. -/
inductive Request where
  /-- Asks for the kind of a type. -/
  | kind (t : TypeId)
  | register (t : TypeId) (k : Kind)
  | autoload
  | setAutoload (on : Bool)
  /-- Asks whether the table lists a handle. -/
  | isListed (h : Handle)
  /-- Asks which handles the table lists. -/
  | handles
  /-- Asks which slots the table lists. -/
  | slots
  /-- Asks for the state of a slot in hand. -/
  | stateOf (s : SlotId)
  /-- Reads the bytes of a handle. -/
  | read (h : Handle)
  /-- Loads a handle of a kind, or joins those who have loaded it. -/
  | acquire (h : Handle) (k : Kind)
  /-- Lists a content of a kind that was made outside the cache. -/
  | add (h : Handle) (k : Kind) (content : Content)
  /-- Carries out an operation on the entry of a handle. -/
  | visit (h : Handle) (v : Visit)

namespace Request

/-- What a request is answered with. -/
abbrev Reply : Request → Type
  | .kind _ => Option Kind
  | .register _ _ => Except Failure Unit
  | .autoload => Bool
  | .setAutoload _ => Unit
  | .isListed _ => Bool
  | .handles => List Handle
  | .slots => List SlotId
  | .stateOf _ => State
  | .read _ => Except SourceFailure (List UInt8)
  | .acquire _ _ => Except Failure Unit
  | .add _ _ _ => Except Failure Unit
  | .visit _ v => v.Reply

/-- Answers a request of a caller who runs alone. -/
def run : (r : Request) → Cache → r.Reply × Cache
  | .kind t, c => (c.kind? t, c)
  | .register t k, c => c.register t k
  | .autoload, c => (c.autoload, c)
  | .setAutoload on, c => ((), { c with autoload := on })
  | .isListed h, c => (c.isListed h, c)
  | .handles, c => (c.handles, c)
  | .slots, c => (c.slots, c)
  | .stateOf s, c => ((c.entry s).state, c)
  | .read h, c => (c.source.read h, c)
  | .acquire h k, c => c.acquire h k
  | .add h k content, c => c.add h k content
  | .visit h v, c => c.visit h v

end Request

/-- Requests, one after another, and a result. -/
inductive Program (α : Type) : Type where
  | done (a : α)
  | ask (r : Request) (next : r.Reply → Program α)

namespace Program

variable {α β : Type}

/-- Goes on with the result of a program. -/
def andThen : Program α → (α → Program β) → Program β
  | .done a, f => f a
  | .ask r next, f => .ask r fun reply => (next reply).andThen f

instance : Monad Program where
  pure := .done
  bind := andThen

/-- Asks one request. -/
def request (r : Request) : Program r.Reply := .ask r .done

/-- Runs a program alone. -/
def run : Program α → Cache → α × Cache
  | .done a, c => (a, c)
  | .ask r next, c =>
    let (reply, c') := r.run c
    (next reply).run c'

/-! ### Running, step by step -/

@[simp] theorem run_pure (a : α) (c : Cache) :
    (pure a : Program α).run c = (a, c) := rfl

@[simp] theorem run_request (r : Request) (c : Cache) :
    (request r).run c = r.run c := rfl

@[simp] theorem run_bind (p : Program α) (f : α → Program β) (c : Cache) :
    (p >>= f).run c = (f (p.run c).1).run (p.run c).2 := by
  show (p.andThen f).run c = _
  induction p generalizing c with
  | done a => rfl
  | ask r next ih => simp only [andThen, run, ih]

/-- Stops at a failure; goes on with the value otherwise. -/
def orStop (p : Program (Except Failure α))
    (f : α → Program (Except Failure β)) : Program (Except Failure β) := do
  match ← p with
  | .ok a => f a
  | .error e => return .error e

@[simp] theorem run_orStop (p : Program (Except Failure α))
    (f : α → Program (Except Failure β)) (c : Cache) :
    (p.orStop f).run c =
      match (p.run c).1 with
      | .ok a => (f a).run (p.run c).2
      | .error e => (.error e, (p.run c).2) := by
  simp only [orStop, run_bind]
  cases (p.run c).1 <;> rfl

/-- What does not stop at a failure has got past it. -/
theorem run_orStop_eq_ok {p : Program (Except Failure α)}
    {f : α → Program (Except Failure β)} {b : β} {c c' : Cache}
    (h : (p.orStop f).run c = (.ok b, c')) :
    ∃ a c₁, p.run c = (.ok a, c₁) ∧ (f a).run c₁ = (.ok b, c') := by
  rw [run_orStop] at h
  cases hp : p.run c with
  | mk o c₁ =>
    rw [hp] at h
    cases o with
    | error e => cases h
    | ok a => exact ⟨a, c₁, rfl, h⟩

theorem run_orStop_of_ok {p : Program (Except Failure α)}
    {f : α → Program (Except Failure β)} {a : α} {c c' : Cache}
    (h : p.run c = (.ok a, c')) : (p.orStop f).run c = (f a).run c' := by
  rw [run_orStop, h]

end Program

end ResourceHost
