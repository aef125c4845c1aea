import ResourceHost.Proofs.Cache.Shelves
import ResourceHost.Proofs.Threads.Errands

/-!
# What a thread can do in one step

`Moves` lists every way in which a thread moves from a point, with the guard
under which it does and what becomes of the cache.  `moves_of_next` says that
there is no other; everything that is said of a step is said by cases on it.
-/

namespace ResourceHost

/-! ### The parts of a move -/

namespace Move

variable {r : Request} {α : Type}

/-- The cache after a move. -/
def cacheAfter (c : Cache) : Move r → Cache
  | .blocked => c
  | .go _ c' => c'
  | .reply _ _ c' => c'

/-- The slot whose waiters a move wakes. -/
def woken? : Move r → Option SlotId
  | .reply _ w _ => w
  | _ => none

/-- The answer that a move gives. -/
def answer? : Move r → Option r.Reply
  | .reply a _ _ => some a
  | _ => none

/-- What becomes of a thread. -/
def thread (p : Point r) (next : r.Reply → Program α) : Move r → Thread α
  | .blocked => .busy r p next
  | .go p' _ => .busy r p' next
  | .reply a _ _ => .ofProgram (next a)

/-- The point that a move leads to within the request. -/
def point? : Move r → Option (Point r)
  | .go p _ => some p
  | _ => none

end Move

/-! ### Every way to move -/

/-- About to begin a request that needs no leaf lock, or holding the lock. -/
def Point.Opening {r : Request} (p : Point r) : Prop :=
  p = .start ∧ r.leaf? = none ∨ p = .begun

/-- The moves from a point.  A hold of a slot ends with `Move.leave`, which
answers at once or wakes those who wait first. -/
inductive Moves (free : Free) (c : Cache) :
    {r : Request} → Point r → Move r → Prop where
  | turn {r : Request} {l : Leaf} (hl : r.leaf? = some l)
      (hf : free.leaf l = true) : Moves free c (r := r) .start (.go .begun c)
  | answer {r : Request} {p : Point r} (hp : p.Opening)
      (hr : r.handle? = none) :
      Moves free c p (.reply (r.run c).1 none (r.run c).2)
  | look {s : SlotId} {p : Point (.stateOf s)} (hp : p.Opening) :
      Moves free c p (.go (.enter s .look) c)
  | join {h : Handle} {k : Kind} {p : Point (.acquire h k)} {s : SlotId}
      (hp : p.Opening) (hs : c.find? h = some s) :
      Moves free c p (.go (.enter s .join) c)
  | load {h : Handle} {k : Kind} {p : Point (.acquire h k)} (hp : p.Opening)
      (hs : c.find? h = none) :
      Moves free c p (.go (.fetch (c.nextSlot h)) (c.openSlot h))
  | refuse {h : Handle} {k : Kind} {content : Content}
      {p : Point (.add h k content)} {s : SlotId} (hp : p.Opening)
      (hs : c.find? h = some s) :
      Moves free c p (.reply (.error (.alreadyLoaded h)) none c)
  | insert {h : Handle} {k : Kind} {content : Content}
      {p : Point (.add h k content)} (hp : p.Opening) (hs : c.find? h = none) :
      Moves free c p (.go (.enter (c.nextSlot h) .introduce) (c.openSlot h))
  | absent {h : Handle} {v : Visit} {p : Point (.visit h v)} (hp : p.Opening)
      (hs : c.find? h = none) : Moves free c p (.reply (v.absent h) none c)
  | find {h : Handle} {v : Visit} {p : Point (.visit h v)} {s : SlotId}
      (hp : p.Opening) (hs : c.find? h = some s) (hv : v.consults ≠ .before) :
      Moves free c p (.go (.enter s (.visit none)) c)
  | findAndAsk {h : Handle} {v : Visit} {p : Point (.visit h v)} {s : SlotId}
      (hp : p.Opening) (hs : c.find? h = some s) (hv : v.consults = .before) :
      Moves free c p (.go (.consult s (.visit none) false) c)
  | ask {r : Request} {s : SlotId} {errand : Errand r} {locked : Bool}
      (hf : free.leaf .registry = true) :
      Moves free c (.consult s errand locked)
        (.go (.consulting s errand locked) c)
  | told {r : Request} {s : SlotId} {errand : Errand r} :
      Moves free c (.consulting s errand false)
        (.go (.enter s (errand.informed (c.kind? s.handle.type))) c)
  | toldAndWork {r : Request} {s : SlotId} {errand : Errand r}
      {sec : Section r.Reply}
      (hs : (errand.informed (c.kind? s.handle.type)).section? s (c.entry s) =
          some sec) : Moves free c (.consulting s errand true)
        (.go (.inside ⟨s, errand.informed (c.kind? s.handle.type),
          sec⟩ sec.calls) c)
  | toldAndStart {r : Request} {s : SlotId} {errand : Errand r}
      (hs : (errand.informed (c.kind? s.handle.type)).section? s (c.entry s) =
        none) :
      Moves free c (.consulting s errand true) (.go .start c)
  | unread {h : Handle} {k : Kind} {s : SlotId} {why : SourceFailure}
      (hr : c.source.read s.handle = .error why) :
      Moves free c (r := .acquire h k) (.fetch s)
        (.go (.enter s (.settle (.error (.noBytes s.handle why)))) c)
  | read {h : Handle} {k : Kind} {s : SlotId} {bytes : List UInt8}
      (hr : c.source.read s.handle = .ok bytes) :
      Moves free c (r := .acquire h k) (.fetch s)
        (.go (.loading s bytes)
          (c.record (Point.loading (h := h) (k := k) s bytes).callback?.toList))
  | loaded {h : Handle} {k : Kind} {s : SlotId} {bytes : List UInt8}
      {content : Content} (hk : k.load s.handle bytes = .ok content) :
      Moves free c (r := .acquire h k) (.loading s bytes)
        (.go (.enter s (.settle (.ok (Entry.firstObject s content)))) c)
  | rejected {h : Handle} {k : Kind} {s : SlotId} {bytes : List UInt8}
      {f : Failure} (hk : k.load s.handle bytes = .error f) :
      Moves free c (r := .acquire h k) (.loading s bytes)
        (.go (.enter s (.settle (.error (.loader s.handle f)))) c)
  | park {r : Request} {s : SlotId} {errand : Errand r}
      (hf : free.slot s = true) (hw : errand.waits (c.entry s) = true) :
      Moves free c (.enter s errand) (.go (.parked s errand) c)
  | hold {r : Request} {s : SlotId} {errand : Errand r}
      (hf : free.slot s = true) (hc : errand.consults = .inside) :
      Moves free c (.enter s errand) (.go (.consult s errand true) c)
  | work {r : Request} {s : SlotId} {errand : Errand r} {sec : Section r.Reply}
      (hf : free.slot s = true) (hw : errand.waits (c.entry s) = false)
      (hc : errand.consults ≠ .inside)
      (hs : errand.section? s (c.entry s) = some sec) :
      Moves free c (.enter s errand)
        (.go (.inside ⟨s, errand, sec⟩ sec.calls) c)
  | restart {r : Request} {s : SlotId} {errand : Errand r}
      (hf : free.slot s = true) (hw : errand.waits (c.entry s) = false)
      (hc : errand.consults ≠ .inside)
      (hs : errand.section? s (c.entry s) = none) :
      Moves free c (.enter s errand) (.go .start c)
  | call {r : Request} {hold : Hold r} {call : Call} {rest : List Call} :
      Moves free c (.inside hold (call :: rest))
        (.go (.calling hold call rest)
          ((c.record [call.callback]).setEntry hold.slot call.entry))
  | back {r : Request} {hold : Hold r} {call : Call} {rest : List Call} :
      Moves free c (.calling hold call rest) (.go (.inside hold rest) c)
  | wait {r : Request} {hold : Hold r} (hev : hold.sec.evicts = true) :
      Moves free c (.inside hold []) (.go (.evict hold) c)
  | leave {r : Request} {hold : Hold r} (hev : hold.sec.evicts = false) :
      Moves free c (.inside hold []) (.leave hold c)
  | take {r : Request} {hold : Hold r} (hf : free.leaf .table = true) :
      Moves free c (.evict hold) (.go (.evicting hold) c)
  | evict {r : Request} {hold : Hold r} :
      Moves free c (.evicting hold) (.leave hold (c.evict hold.slot))
  | rouse {r : Request} {s : SlotId} {a : r.Reply} :
      Moves free c (.rouse s a) (.reply a (some s) c)

variable {r : Request} {free : Free} {c : Cache}

theorem moves_of_begin {p : Point r} {mv : Move r} (hp : p.Opening)
    (h : Move.begin r c = mv) : Moves free c p mv := by
  subst h
  cases r with
  | stateOf s => exact .look hp
  | acquire h k =>
    simp only [Move.begin]
    cases hs : c.find? h with
    | none => exact .load hp hs
    | some s => exact .join hp hs
  | add h k content =>
    simp only [Move.begin, Cache.isListed_eq_isSome]
    cases hs : c.find? h with
    | none => exact .insert hp hs
    | some s => exact .refuse hp hs
  | visit h v =>
    simp only [Move.begin]
    cases hs : c.find? h with
    | none => exact .absent hp hs
    | some s =>
      by_cases hv : v.consults = .before
      · simpa [hv] using Moves.findAndAsk hp hs hv
      · simpa [hv] using Moves.find hp hs hv
  | kind t => exact .answer hp rfl
  | register t k => exact .answer hp rfl
  | autoload => exact .answer hp rfl
  | setAutoload on => exact .answer hp rfl
  | isListed h => exact .answer hp rfl
  | handles => exact .answer hp rfl
  | slots => exact .answer hp rfl
  | read h => exact .answer hp rfl

theorem moves_of_enter {s : SlotId} {errand : Errand r} {mv : Move r}
    (hf : free.slot s = true) (h : Move.enter s errand c = mv) :
    Moves free c (.enter s errand) mv := by
  subst h
  unfold Move.enter
  cases hw : errand.waits (c.entry s) with
  | true => exact .park hf hw
  | false =>
    by_cases hc : errand.consults = .inside
    · simpa [hc] using Moves.hold hf hc
    · simp only [hc, Bool.false_eq_true, if_false, Move.work]
      cases hs : errand.section? s (c.entry s) with
      | none => exact .restart hf hw hc hs
      | some sec => exact .work hf hw hc hs

/-- A thread moves in no other way. -/
theorem moves_of_next {p : Point r} {mv : Move r} (h : Move.next free p c = mv)
    (hmv : mv ≠ .blocked) : Moves free c p mv := by
  -- Where a step needs a lock that is not free, the thread is blocked against
  -- `hmv`.
  cases p with
  | start =>
    simp only [Move.next] at h
    split at h
    · rename_i hl
      exact moves_of_begin (.inl ⟨rfl, hl⟩) h
    · rename_i l hl
      by_cases hf : free.leaf l = true
      · rw [if_pos hf] at h
        subst h
        exact .turn hl hf
      · rw [if_neg hf] at h
        exact absurd h.symm hmv
  | begun => exact moves_of_begin (.inr rfl) h
  | consult s errand locked =>
    by_cases hf : free.leaf .registry = true
    · simp only [Move.next, hf, if_true] at h
      subst h
      exact .ask hf
    · simp only [Move.next, hf] at h
      exact absurd h.symm hmv
  | consulting s errand locked =>
    cases locked with
    | false =>
      subst h
      exact .told
    | true =>
      simp only [Move.next, if_true, Move.work] at h
      split at h
      · rename_i sec hs
        subst h
        exact .toldAndWork hs
      · rename_i hs
        subst h
        exact .toldAndStart hs
  | fetch s =>
    simp only [Move.next, Move.fetch] at h
    split at h
    · rename_i why hr
      subst h
      exact .unread hr
    · rename_i bytes hr
      subst h
      exact .read hr
  | @loading _ k s bytes =>
    simp only [Move.next, Move.loaded] at h
    subst h
    cases hk : k.load s.handle bytes with
    | ok content => exact .loaded hk
    | error f => exact .rejected hk
  | enter s errand =>
    by_cases hf : free.slot s = true
    · simp only [Move.next, hf, if_true] at h
      exact moves_of_enter hf h
    · simp only [Move.next, hf] at h
      exact absurd h.symm hmv
  | parked s errand => exact absurd h.symm hmv
  | inside hold calls =>
    cases calls with
    | cons call rest =>
      subst h
      exact .call
    | nil =>
      cases hev : hold.sec.evicts with
      | true =>
        simp only [Move.next, hev, if_true] at h
        subst h
        exact .wait hev
      | false =>
        simp only [Move.next, hev, Bool.false_eq_true, if_false] at h
        subst h
        exact .leave hev
  | calling hold call rest =>
    subst h
    exact .back
  | evict hold =>
    by_cases hf : free.leaf .table = true
    · simp only [Move.next, hf, if_true] at h
      subst h
      exact .take hf
    · simp only [Move.next, hf] at h
      exact absurd h.symm hmv
  | evicting hold =>
    subst h
    exact .evict
  | rouse s a =>
    subst h
    exact .rouse

theorem Move.work_ne_blocked (s : SlotId) (errand : Errand r) (c : Cache) :
    Move.work s errand c ≠ .blocked := by
  unfold Move.work
  split <;> exact nofun

theorem Move.leave_ne_blocked (hold : Hold r) (c : Cache) :
    Move.leave hold c ≠ .blocked := by
  unfold Move.leave
  dsimp only
  split <;> exact nofun

theorem Moves.ne_blocked {p : Point r} {mv : Move r} (h : Moves free c p mv) :
    mv ≠ .blocked := by
  cases h with
  | leave hev => exact Move.leave_ne_blocked _ _
  | evict => exact Move.leave_ne_blocked _ _
  | _ => exact nofun

/-! ### A step of a machine -/

namespace Machine

variable {α : Type} {m m' : Machine α} {i : Nat}

/-- The move that a thread makes in its next step. -/
theorem step_eq_some (h : m.step i = some m') :
    ∃ (r : Request) (p : Point r) (next : r.Reply → Program α) (mv : Move r),
      m.threads[i]? = some (.busy r p next) ∧ Move.next m.free p m.cache = mv ∧
      Moves m.free m.cache p mv ∧
      m' = ⟨mv.cacheAfter m.cache,
        (wake mv.woken? m.threads).set i (mv.thread p next)⟩ := by
  unfold step at h
  split at h
  · rename_i r p next hi
    refine ⟨r, p, next, _, hi, rfl, ?_⟩
    cases hmv : Move.next m.free p m.cache with
    | blocked => simp [hmv] at h
    | go p' c' =>
      simp only [hmv, Option.some.injEq] at h
      exact ⟨moves_of_next hmv (by simp), h.symm⟩
    | reply a w c' =>
      simp only [hmv, Option.some.injEq] at h
      exact ⟨moves_of_next hmv (by simp), h.symm⟩
  · cases h

/-- A thread that is not through and has no step is blocked. -/
theorem next_eq_blocked_of_step {r : Request} {p : Point r}
    {next : r.Reply → Program α} (hi : m.threads[i]? = some (.busy r p next))
    (hs : m.step i = none) : Move.next m.free p m.cache = .blocked := by
  unfold step at hs
  rw [hi] at hs
  dsimp only at hs
  split at hs
  · assumption
  · cases hs
  · cases hs

end Machine

end ResourceHost
