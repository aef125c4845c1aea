import ResourceHost.Proofs.Threads.Fates

/-!
# Waiters share the outcome of the load that they joined

A caller that finds a slot of another thread's load joins that load: it takes
the slot's lock, sleeps while the load is under way, and then reads off the
entry what came of it.  By then the slot may have left the table and others may
have been made for the handle; the caller keeps to the one that it looked up.
-/

namespace ResourceHost

/-! ### Joining a load -/

/-- Is to join a load. -/
def Errand.joins {r : Request} : Errand r → Bool
  | .join => true
  | _ => false

/-- The slot whose load a thread has joined. -/
def Point.joined? {r : Request} : Point r → Option SlotId
  | .enter s errand | .parked s errand => if errand.joins then some s else none
  | .inside hold _ | .calling hold _ _ | .evict hold | .evicting hold =>
    if hold.errand.joins then some hold.slot else none
  | _ => none

/-- How far a thread that has joined a load is from its end, once the load has
one. -/
def Point.stepsToJoin {r : Request} : Point r → Nat
  | .parked _ _ => 3
  | .enter _ _ => 2
  | _ => 1

/-- The moves of a thread that has joined the load of a slot. -/
inductive JoinMove (c : Cache) (s : SlotId) {h : Handle} {k : Kind} :
    Point (.acquire h k) → Move (.acquire h k) → Prop where
  /-- The load is under way. -/
  | sleep (hw : (c.entry s).state = .loading) :
      JoinMove c s (.enter s .join) (.go (.parked s .join) c)
  | lock {sec : Section (Except Failure Unit)}
      (hsec : (c.entry s).join? = some sec) :
      JoinMove c s (.enter s .join) (.go (.inside ⟨s, .join, sec⟩ []) c)
  /-- There is neither a resource any more nor a failure. -/
  | restart (hl : ¬ c.Listed s) (hf : (c.entry s).failure = none) :
      JoinMove c s (.enter s .join) (.go .start c)
  | answer {sec : Section (Except Failure Unit)}
      (hsec : (c.entry s).join? = some sec) :
      JoinMove c s (.inside ⟨s, .join, sec⟩ [])
        (.reply sec.answer none (c.setEntry s sec.entry))

theorem Point.joined?_eq_some {s s' : SlotId} {joins : Bool}
    (h : (if joins then some s' else none) = some s) :
    joins = true ∧ s' = s := by
  cases joins with
  | true => exact ⟨rfl, Option.some.inj h⟩
  | false => cases h

/-- What is found to join a load with: one more reference, or its failure. -/
theorem Entry.join?_cases {e : Entry} {sec : Section (Except Failure Unit)}
    (hs : e.join? = some sec) :
    (e.state = .online ∨ e.state = .offline) ∧
        sec =
          { entry := { e with refCount := e.refCount + 1 }, answer := .ok () } ∨
      ∃ f, e.failure = some f ∧ sec = e.answering (.error f) := by
  simp only [join?] at hs
  split at hs
  · rename_i hst
    exact .inl ⟨.inl hst, (Option.some.inj hs).symm⟩
  · rename_i hst
    exact .inl ⟨.inr hst, (Option.some.inj hs).symm⟩
  · obtain ⟨f, hf, rfl⟩ := Option.map_eq_some_iff.1 hs
    exact .inr ⟨f, hf, rfl⟩

theorem Entry.Gone.join? {e : Entry} (he : e.Gone) :
    e.join? = e.failure.map fun f => e.answering (.error f) := by
  simp [Entry.join?, he.state]

theorem Entry.calls_of_join? {e : Entry} {sec : Section (Except Failure Unit)}
    (hs : e.join? = some sec) : sec.calls = [] ∧ sec.evicts = false := by
  rcases join?_cases hs with ⟨-, rfl⟩ | ⟨f, -, rfl⟩ <;> exact ⟨rfl, rfl⟩

namespace Moves

variable {conduct : Conduct} {free : Free} {c : Cache} {h : Handle} {k : Kind}
  {p : Point (.acquire h k)} {mv : Move (.acquire h k)} {s : SlotId}

/-- A thread under the lock of a slot whose load it has joined has nothing to
call and evicts nothing. -/
theorem join?_of_since {hold : Hold (.acquire h k)} {found : Entry}
    {calls : List Call} (hj : hold.errand.joins = true)
    (hs : hold.Since conduct c found calls) :
    calls = [] ∧ hold = ⟨hold.slot, .join, hold.sec⟩ ∧ hold.sec.evicts = false ∧
      (c.entry hold.slot).join? = some hold.sec := by
  obtain ⟨s, errand, sec⟩ := hold
  cases errand with
  | settle outcome => cases hj
  | join =>
    obtain ⟨hcalls, hev⟩ := Entry.calls_of_join? hs.does
    have hnil : calls = [] := by
      have hsuffix := hs.rest
      rw [hcalls] at hsuffix
      exact List.suffix_nil.1 hsuffix
    refine ⟨hnil, rfl, hev, ?_⟩
    rcases hs.stands with ⟨-, he⟩ | ⟨call, hmem, -⟩
    · rw [he]
      exact hs.does
    · rw [hcalls] at hmem
      cases hmem

theorem joinMove (hmv : Moves free c p mv)
    (hfree : ∀ s, free.slot s = true → (c.entry s).Settled (c.Listed s))
    (hp : p.Sound conduct c) (hj : p.joined? = some s) : JoinMove c s p mv := by
  -- Only from `enter` and under the lock of the slot can the thread move at
  -- all.
  cases hmv with
  | @park _ s' errand hf hw =>
    obtain ⟨hjoins, rfl⟩ := Point.joined?_eq_some hj
    cases errand with
    | settle outcome => cases hjoins
    | join => exact .sleep (of_decide_eq_true hw)
  | @hold _ s' errand hf hc =>
    cases errand <;> cases hc
  | @work _ s' errand sec hf hw hc hsec =>
    obtain ⟨hjoins, rfl⟩ := Point.joined?_eq_some hj
    cases errand with
    | settle outcome => cases hjoins
    | join =>
      rw [(Entry.calls_of_join? hsec).1]
      exact .lock hsec
  | @restart _ s' errand hf hw hc hsec =>
    obtain ⟨hjoins, rfl⟩ := Point.joined?_eq_some hj
    cases errand with
    | settle outcome => cases hjoins
    | join =>
      cases hfree s' hf with
      | loading hl he =>
        rw [he] at hw
        cases hw
      | loaded hl he =>
        rcases he.state with hst | hst <;>
          simp [Errand.section?, Entry.join?, hst] at hsec
      | gone hl he =>
        exact .restart hl (Option.map_eq_none_iff.1 (he.join?.symm.trans hsec))
  | call =>
    obtain ⟨hjoins, -⟩ := Point.joined?_eq_some hj
    obtain ⟨found, hs⟩ := hp
    cases (join?_of_since hjoins hs).1
  | @back _ hold call rest =>
    obtain ⟨hjoins, -⟩ := Point.joined?_eq_some hj
    obtain ⟨hmem, found, hs⟩ := hp
    obtain ⟨-, -, -, hsec⟩ := join?_of_since hjoins hs
    rw [(Entry.calls_of_join? hsec).1] at hmem
    cases hmem
  | wait hev =>
    obtain ⟨hjoins, -⟩ := Point.joined?_eq_some hj
    obtain ⟨found, hs⟩ := hp
    exact absurd ((join?_of_since hjoins hs).2.2.1.symm.trans hev)
      Bool.false_ne_true
  | @leave _ hold hev =>
    obtain ⟨hjoins, rfl⟩ := Point.joined?_eq_some hj
    obtain ⟨found, hs⟩ := hp
    obtain ⟨-, heq, -, hsec⟩ := join?_of_since hjoins hs
    obtain ⟨s, errand, sec⟩ := hold
    cases heq
    exact .answer hsec
  | take hf =>
    obtain ⟨hjoins, -⟩ := Point.joined?_eq_some hj
    obtain ⟨hev, found, hs⟩ := hp
    exact absurd ((join?_of_since hjoins hs).2.2.1.symm.trans hev)
      Bool.false_ne_true
  | evict =>
    obtain ⟨hjoins, -⟩ := Point.joined?_eq_some hj
    obtain ⟨hev, found, hs⟩ := hp
    exact absurd ((join?_of_since hjoins hs).2.2.1.symm.trans hev)
      Bool.false_ne_true
  | answer ho hr => cases hr
  | join ho hf => rcases ho with ⟨rfl, -⟩ | rfl <;> cases hj
  | load ho hf => rcases ho with ⟨rfl, -⟩ | rfl <;> cases hj
  | _ => cases hj

end Moves

theorem Move.enter_ne_blocked {r : Request} (s : SlotId) (errand : Errand r)
    (c : Cache) : Move.enter s errand c ≠ .blocked := by
  unfold Move.enter
  split
  · exact nofun
  · split
    · exact nofun
    · exact Move.work_ne_blocked s errand c

/-- A thread that has joined a load cannot move only while it sleeps or the slot
is locked. -/
theorem Point.awaits_of_blocked {conduct : Conduct} {free : Free} {c : Cache}
    {h : Handle} {k : Kind} {p : Point (.acquire h k)} {s : SlotId}
    (hp : p.Sound conduct c) (hj : p.joined? = some s)
    (hb : Move.next free p c = .blocked) :
    (∃ errand, p = .parked s errand) ∨ p.slot? = none ∧ free.slot s ≠ true := by
  cases p with
  | enter s' errand =>
    obtain ⟨-, rfl⟩ := joined?_eq_some hj
    refine .inr ⟨rfl, fun hf => ?_⟩
    simp only [Move.next, hf, if_true] at hb
    exact Move.enter_ne_blocked s' errand c hb
  | parked s' errand =>
    obtain ⟨-, rfl⟩ := joined?_eq_some hj
    exact .inl ⟨errand, rfl⟩
  | inside hold calls =>
    cases calls with
    | cons call rest => cases hb
    | nil =>
      simp only [Move.next] at hb
      split at hb
      · cases hb
      · exact absurd hb (Move.leave_ne_blocked hold c)
  | calling hold call rest => cases hb
  | evict hold =>
    obtain ⟨hjoins, -⟩ := joined?_eq_some hj
    obtain ⟨hev, found, hs⟩ := hp
    exact absurd ((Moves.join?_of_since hjoins hs).2.2.1.symm.trans hev)
      Bool.false_ne_true
  | evicting hold => exact absurd hb (Move.leave_ne_blocked hold _)
  | _ => cases hj

/-! ### Who has joined a load, along a course -/

namespace Machine

variable {α : Type} {conduct : Conduct} {m₀ m m' : Machine α}
  {es₀ es : List Event} {i : Nat} {h : Handle} {k : Kind}
  {p : Point (.acquire h k)} {next : Except Failure Unit → Program α}
  {s : SlotId}

/-- A thread has joined the load of a slot. -/
structure Joins (m : Machine α) (i : Nat) (s : SlotId) {h : Handle} {k : Kind}
    (p : Point (.acquire h k)) (next : Except Failure Unit → Program α) :
    Prop where
  thread : m.threads[i]? = some (.busy (.acquire h k) p next)
  joined : p.joined? = some s

theorem Joins.made (hj : m.Joins i s p next) (hinv : m.Inv conduct) :
    m.cache.Made s := by
  have hp := (hinv.sound i _ hj.thread).1
  have hjoined := hj.joined
  cases p with
  | enter s' errand =>
    obtain ⟨-, rfl⟩ := Point.joined?_eq_some hjoined
    exact hp.2.1
  | parked s' errand =>
    obtain ⟨-, rfl⟩ := Point.joined?_eq_some hjoined
    exact hp.2.1
  | inside hold calls =>
    obtain ⟨-, rfl⟩ := Point.joined?_eq_some hjoined
    exact Point.made_of_slot? hp rfl
  | calling hold call rest =>
    obtain ⟨-, rfl⟩ := Point.joined?_eq_some hjoined
    exact Point.made_of_slot? hp rfl
  | evict hold =>
    obtain ⟨-, rfl⟩ := Point.joined?_eq_some hjoined
    exact Point.made_of_slot? hp rfl
  | evicting hold =>
    obtain ⟨-, rfl⟩ := Point.joined?_eq_some hjoined
    exact Point.made_of_slot? hp rfl
  | _ => cases hjoined

theorem Joins.step_cases (hj : m.Joins i s p next) (hinv : m.Inv conduct)
    (hs : m.step i = some m') :
    ∃ mv : Move (.acquire h k),
      JoinMove m.cache s p mv ∧ m.events i = mv.events i p m.cache ∧
      m'.cache = mv.cacheAfter m.cache ∧
      m'.threads[i]? = some (mv.thread p next) := by
  obtain ⟨r, p', next', mv, hi, hmv, hev, rfl⟩ := Machine.step_cases hs
  cases hi.symm.trans hj.thread
  exact ⟨mv, hmv.joinMove hinv.settled (hinv.sound i _ hi).1 hj.joined, hev,
    rfl, getElem?_set_wake_self hi⟩

/-- A thread that is woken is still at the slot, and closer to its end. -/
theorem Point.joins_roused (w : Option SlotId)
    (next : Except Failure Unit → Program α) (hj : p.joined? = some s) :
    ∃ q : Point (.acquire h k),
      Thread.roused w (.busy _ p next) = .busy _ q next ∧
      q.joined? = some s ∧ q.stepsToJoin ≤ p.stepsToJoin := by
  rcases Thread.roused_busy w p next with heq | ⟨s', errand, rfl, heq⟩
  · exact ⟨p, heq, hj, Nat.le_refl _⟩
  · exact ⟨_, heq, hj, Nat.le_succ _⟩

/-- What a thread that has joined the load of a slot is going to do, in view of
the record so far. -/
structure Shares (conduct : Conduct) (m : Machine α) (es : List Event) (i : Nat)
    (s : SlotId) {h : Handle} {k : Kind} (p : Point (.acquire h k))
    (next : Except Failure Unit → Program α) : Prop where
  /-- The load is under way, has succeeded or has failed. -/
  outcome : m.cache.Listed s ∧ (m.cache.entry s).Waiting ∨
    .settled ∈ Event.deedsOn s es ∨
    ∃ f, (m.cache.entry s).failure = some f
  /-- If the load has failed, the thread is answered with the failure. -/
  failed : ∀ f m', (m.cache.entry s).failure = some f → m.step i = some m' →
    m'.cache = m.cache ∧
      ((∃ q : Point (.acquire h k), m'.Joins i s q next ∧
          q.stepsToJoin < p.stepsToJoin) ∨
        Event.answered i (.acquire h k) (Except.error f : Except Failure Unit) ∈
            m.events i ∧
          m'.threads[i]? = some (.ofProgram (next (.error f))))
  /-- If the load has succeeded, the thread is answered with success and takes
  one reference, or starts over because the resource has been unloaded. -/
  filled : ∀ m', .settled ∈ Event.deedsOn s es → m.step i = some m' →
    (m.cache.entry s).failure = none ∧
      ((∃ q : Point (.acquire h k), m'.Joins i s q next ∧
          q.stepsToJoin < p.stepsToJoin ∧
          m'.cache = m.cache) ∨
        (Event.answered i (.acquire h k) (Except.ok () : Except Failure Unit) ∈
            m.events i ∧
          Event.did i s .joined ∈ m.events i ∧
          m'.threads[i]? = some (.ofProgram (next (.ok ()))) ∧
          (m'.cache.entry s).refCount = (m.cache.entry s).refCount + 1) ∨
        (m'.threads[i]? = some (.busy (.acquire h k) .start next) ∧
          m'.cache = m.cache ∧
          .unloaded ∈ Event.deedsOn s es ∧ ¬ m.cache.Listed s))
  /-- It cannot move only while it sleeps, and somebody has still to wake it, or
  somebody else has the lock of the slot. -/
  blocked : m.step i = none →
    ((∃ errand, p = .parked s errand) ∧
        ∃ (j : Nat) (t : Thread α), m.threads[j]? = some t ∧ t.HasToWake s) ∨
      ∃ (j : Nat) (t : Thread α), j ≠ i ∧ m.threads[j]? = some t ∧
      t.slot? = some s

theorem Joins.shares (hj : m.Joins i s p next) (h₀ : m₀.Starts conduct)
    (hr : Course conduct m₀ es m) : m.Shares conduct es i s p next := by
  have hinv := hr.inv h₀
  have hmade := hj.made hinv
  have hfate := hr.fate h₀ s
  have hstory := hr.story h₀ s
  refine ⟨?_, ?_, ?_, ?_⟩
  · by_cases hl : m.cache.Listed s
    · rcases hstory.listed_cases hmade hl with
        ⟨hw, -⟩ | ⟨-, later, earlier, heq, -, -⟩
      · exact .inl ⟨hl, hw⟩
      · exact .inr (.inl (by simp [heq]))
    · rcases hfate.of_not_listed hmade hl with ⟨f, hf, -⟩ | ⟨-, -, hset⟩
      · exact .inr (.inr ⟨f, hf⟩)
      · exact .inr (.inl hset)
  · intro f m' hf hs
    have hgone := hinv.gone_of_not_listed (hfate.not_listed_of_failure hmade hf)
    obtain ⟨mv, hmv, hev, hcache, hthread⟩ := hj.step_cases hinv hs
    cases hmv with
    | sleep hw => cases hgone.state.symm.trans hw
    | lock hsec => exact ⟨hcache, .inl ⟨_, ⟨hthread, rfl⟩, Nat.lt_succ_self 1⟩⟩
    | restart hl hnone => cases hnone.symm.trans hf
    | @answer sec hsec =>
      rw [hgone.join?, hf] at hsec
      cases hsec
      refine ⟨hcache.trans (Cache.setEntry_entry hmade), .inr ⟨?_, hthread⟩⟩
      rw [hev]
      exact Move.answered_mem_events.2 ⟨_, rfl, rfl⟩
  · intro m' hset hs
    have hnone := hfate.failure_of_settled hset
    refine ⟨hnone, ?_⟩
    obtain ⟨mv, hmv, hev, hcache, hthread⟩ := hj.step_cases hinv hs
    cases hmv with
    | sleep hw =>
      -- The slot has been filled, so it does not load any more.
      by_cases hl : m.cache.Listed s
      · rcases hstory.listed_cases hmade hl with ⟨-, hearly⟩ | ⟨hwait, -⟩
        · rcases hearly _ hset with h | h | h <;> cases h
        · exact absurd (.inl hw) hwait
      · cases (hinv.gone_of_not_listed hl).state.symm.trans hw
    | lock hsec => exact .inl ⟨_, ⟨hthread, rfl⟩, Nat.lt_succ_self 1, hcache⟩
    | restart hl _ =>
      rcases hfate.of_not_listed hmade hl with ⟨-, -, -, -, hds⟩ | ⟨-, hunl, -⟩
      · exact absurd hset hds
      · exact .inr (.inr ⟨hthread, hcache, hunl, hl⟩)
    | @answer sec hsec =>
      rcases Entry.join?_cases hsec with ⟨-, rfl⟩ | ⟨f, hf, -⟩
      · refine .inr (.inl ⟨?_, ?_, hthread, ?_⟩)
        · rw [hev]
          exact Move.answered_mem_events.2 ⟨_, rfl, rfl⟩
        · rw [hev]
          exact Move.did_mem_events.2 ⟨rfl, rfl⟩
        · rw [hcache]
          exact congrArg Entry.refCount (Cache.entry_setEntry_self hmade _)
      · cases hnone.symm.trans hf
  · intro hs
    rcases Point.awaits_of_blocked (hinv.sound i _ hj.thread).1 hj.joined
      (next_eq_blocked_of_step hj.thread hs) with ⟨errand, rfl⟩ | ⟨hslot, hf⟩
    · exact .inl ⟨⟨errand, rfl⟩, hr.watched h₀ i _ _ hj.thread rfl⟩
    · obtain ⟨j, t, htj, ht⟩ := exists_slot_of_not_free hf
      refine .inr ⟨j, t, ?_, htj, ht⟩
      rintro rfl
      cases Option.some.inj (hj.thread.symm.trans htj)
      cases hslot.symm.trans ht

/-- A step of such a thread: it is still at the slot, it starts over, or it is
answered. -/
theorem Joins.own_step (hj : m.Joins i s p next) (hinv : m.Inv conduct)
    (hs : m.step i = some m') :
    (∃ q : Point (.acquire h k), m'.Joins i s q next ∧ m.events i = [] ∧
      ((m.cache.entry s).state ≠ .loading → q.stepsToJoin ≤ p.stepsToJoin)) ∨
    (m'.threads[i]? = some (.busy (.acquire h k) .start next) ∧
      m.events i = [] ∧
      m'.cache = m.cache ∧ ¬ m.cache.Listed s ∧
        (m.cache.entry s).failure = none) ∨
    ∃ a : Except Failure Unit,
      Event.answered i (.acquire h k) a ∈ m.events i := by
  obtain ⟨mv, hmv, hev, hcache, hthread⟩ := hj.step_cases hinv hs
  cases hmv with
  | sleep hw => exact .inl ⟨_, ⟨hthread, rfl⟩, hev, fun hn => absurd hw hn⟩
  | lock hsec => exact .inl ⟨_, ⟨hthread, rfl⟩, hev, fun _ => Nat.le_succ 1⟩
  | restart hl hf => exact .inr (.inl ⟨hthread, hev, hcache, hl, hf⟩)
  | @answer sec hsec =>
    refine .inr (.inr ⟨sec.answer, ?_⟩)
    rw [hev]
    exact Move.answered_mem_events.2 ⟨_, rfl, rfl⟩

/-- A step of another thread leaves it at the slot, and may wake it. -/
theorem Joins.other_step (hj : m.Joins i s p next) {j : Nat} (hij : i ≠ j)
    (hs : m.step j = some m') :
    ∃ q : Point (.acquire h k),
      m'.Joins i s q next ∧ q.stepsToJoin ≤ p.stepsToJoin ∧
      ∀ s' d, Event.did i s' d ∉ m.events j := by
  obtain ⟨r, p', next', mv, hi, -, hev, rfl⟩ := Machine.step_cases hs
  obtain ⟨q, heq, hq, hle⟩ := Point.joins_roused mv.woken? next hj.joined
  refine ⟨q, ⟨?_, hq⟩, hle, fun s' d hmem => ?_⟩
  · rw [← heq]
    exact getElem?_set_wake_of_ne hij hj.thread
  · rw [hev] at hmem
    exact hij (Move.did_mem_events.1 hmem).1

/-- In between a thread has started over, because what had been loaded in the
slot was unloaded; until then it had done nothing to any slot. -/
def StartsOver (conduct : Conduct) (m m' : Machine α) (es₀ es : List Event)
    (i : Nat) (s : SlotId) (h : Handle) (k : Kind)
    (next : Except Failure Unit → Program α) : Prop :=
  ∃ (es₁ es₂ : List Event) (m₁ : Machine α),
    es = es₂ ++ es₁ ∧ Course conduct m es₁ m₁ ∧
    Course conduct m₁ es₂ m' ∧
    m₁.threads[i]? = some (.busy (.acquire h k) .start next) ∧
    ¬ m₁.cache.Listed s ∧ (m₁.cache.entry s).failure = none ∧
    .unloaded ∈ Event.deedsOn s (es₁ ++ es₀) ∧ ∀ s' d, Event.did i s' d ∉ es₁

/-- Until it is answered, a thread that has joined the load of a slot keeps to
it and does nothing to any slot, unless it starts over.  Once the load has
failed, nothing sets it back. -/
theorem Course.joins (hr₀ : Course conduct m₀ es₀ m) (h₀ : m₀.Starts conduct)
    (hj : m.Joins i s p next) (hr : Course conduct m es m')
    (hno : ∀ r a, Event.answered i r a ∉ es) :
    (∃ q : Point (.acquire h k), m'.Joins i s q next ∧
      (∀ s' d, Event.did i s' d ∉ es) ∧
      ((m.cache.entry s).failure ≠ none → q.stepsToJoin ≤ p.stepsToJoin)) ∨
    StartsOver conduct m m' es₀ es i s h k next := by
  have hinv := hr₀.inv h₀
  have hmade := hj.made hinv
  -- A load that has failed is not under way.
  have hfailed : ∀ {es m'}, Course conduct m es m' →
      (m.cache.entry s).failure ≠ none →
      (m'.cache.entry s).state ≠ .loading := by
    intro es m' hr hf hload
    obtain ⟨f, hf⟩ := Option.ne_none_iff_exists'.1 hf
    have hl := (hr₀.fate h₀ s).not_listed_of_failure hmade hf
    rw [(hr.keeps_gone hinv hmade hl).entry,
      (hinv.gone_of_not_listed hl).state] at hload
    cases hload
  induction hr with
  | refl => exact .inl ⟨p, hj, nofun, fun _ => Nat.le_refl _⟩
  | @step es m' m'' j hr hs ih =>
    have hr' := hr₀.trans hr
    rcases ih fun r a hmem => hno r a (List.mem_append_right _ hmem) with
      ⟨q, hq, hdid, hle⟩ | ⟨es₁, es₂, m₁, rfl, hr₁, hr₂, hrest⟩
    · by_cases hij : i = j
      · subst hij
        have hquiet : m'.events i = [] →
            ∀ s' d, Event.did i s' d ∉ m'.events i ++ es := by
          intro hnil
          rw [hnil]
          exact hdid
        rcases hq.own_step (hr'.inv h₀) hs with
          ⟨q', hq', hnil, hle'⟩ | ⟨hthread, hnil, hcache, hl, hf⟩ | ⟨a, hans⟩
        · exact .inl ⟨q', hq', hquiet hnil,
            fun hf => Nat.le_trans (hle' (hfailed hr hf)) (hle hf)⟩
        · refine .inr ⟨m'.events i ++ es, [], m'', rfl, .step hr hs, .refl,
            hthread, ?_⟩
          rw [hcache]
          refine ⟨hl, hf, ?_, hquiet hnil⟩
          rcases (hr'.fate h₀ s).of_not_listed (hr.made hmade) hl with
            ⟨f, hf', -⟩ | ⟨-, hunl, -⟩
          · cases hf.symm.trans hf'
          · rw [List.append_assoc, Event.deedsOn_append]
            exact List.mem_append_right _ hunl
        · exact absurd (List.mem_append_left _ hans) (hno _ _)
      · obtain ⟨q', hq', hle', hquiet⟩ := hq.other_step hij hs
        refine .inl ⟨q', hq', fun s' d hmem => ?_,
          fun hf => Nat.le_trans hle' (hle hf)⟩
        exact (List.mem_append.1 hmem).elim (hquiet s' d) (hdid s' d)
    · exact .inr ⟨es₁, _, m₁, (List.append_assoc _ _ _).symm, hr₁,
        .step hr₂ hs, hrest⟩
  | @drift es m' c hr hc ih =>
    rcases ih hno with ⟨q, hq, hrest⟩ | ⟨es₁, es₂, m₁, heq, hr₁, hr₂, hrest⟩
    · exact .inl ⟨q, ⟨hq.thread, hq.joined⟩, hrest⟩
    · exact .inr ⟨es₁, es₂, m₁, heq, hr₁, .drift hr₂ hc, hrest⟩
  | @stir es m' hr j ih =>
    rcases ih hno with ⟨q, hq, hdid, hle⟩ | ⟨es₁, es₂, m₁, heq, hr₁, hr₂, hrest⟩
    · obtain ⟨w, hw⟩ := getElem?_stir (i := j) hq.thread
      obtain ⟨q', heq, hq', hle'⟩ := Point.joins_roused w next hq.joined
      refine .inl ⟨q', ⟨?_, hq'⟩, hdid, fun hf => Nat.le_trans hle' (hle hf)⟩
      rw [← heq]
      exact hw
    · exact .inr ⟨es₁, es₂, m₁, heq, hr₁, .stir hr₂ j, hrest⟩

end Machine

/-! ### The failures that loads are answered with -/

/-- The slot that a thread has in hand. -/
def Point.inHand? {r : Request} : Point r → Option SlotId
  | .start | .begun => none
  | .consult s _ _ | .consulting s _ _ | .fetch s | .loading s _ | .enter s _
  | .parked s _
  | .rouse s _ => some s
  | .inside hold _ | .calling hold _ _ | .evict hold | .evicting hold =>
    some hold.slot

namespace Moves

variable {conduct : Conduct} {free : Free} {c : Cache} {h : Handle} {k : Kind}
  {p q : Point (.acquire h k)} {mv : Move (.acquire h k)} {s : SlotId}
  {f : Failure}

/-- A slot that comes into hand is the one that the table lists now. -/
theorem inHand?_of_point? (hmv : Moves free c p mv) (hq : mv.point? = some q)
    (hs : q.inHand? = some s) :
    p.inHand? = some s ∨ p = .begun ∧ (mv.cacheAfter c).find? h = some s := by
  cases hmv with
  | join ho hf =>
    cases hq
    cases hs
    exact .inr ⟨begun_of_opening ho (l := .table) rfl, hf⟩
  | load ho hf =>
    cases hq
    cases hs
    exact .inr ⟨begun_of_opening ho (l := .table) rfl,
      c.listed_openSlot_nextSlot h⟩
  | leave hev =>
    rw [point?_leave _ _ _ hq] at hs
    exact .inl hs
  | evict =>
    rw [point?_leave _ _ _ hq] at hs
    exact .inl hs
  | turn hl hf => cases hq; cases hs
  | answer ho hr => cases hr
  | toldAndStart hsec => cases hq; cases hs
  | restart hf hw hc hsec => cases hq; cases hs
  | rouse => cases hq
  | _ =>
    cases hq
    exact .inl hs

theorem wakes_of_point?_leave {hold : Hold (.acquire h k)} {c' : Cache}
    (hq : (Move.leave hold c').point? = some q) : hold.wakes = true := by
  cases hw : hold.wakes with
  | true => rfl
  | false =>
    rw [leave_of_not_wakes hw] at hq
    cases hq

theorem not_wakes_of_answer?_leave {hold : Hold (.acquire h k)} {c' : Cache}
    {a : Except Failure Unit} (ha : (Move.leave hold c').answer? = some a) :
    hold.wakes = false := by
  cases hw : hold.wakes with
  | false => rfl
  | true =>
    simp only [Move.leave, hw, if_true] at ha
    cases ha

theorem rouse_of_point?_leave {hold : Hold (.acquire h k)} {c' : Cache}
    {a : Except Failure Unit}
    (hq : (Move.leave hold c').point? = some (.rouse s a)) :
    hold.slot = s ∧ hold.sec.answer = a := by
  injection point?_leave _ _ _ hq with hr hs ha
  exact ⟨hs.symm, ha.symm⟩

/-- Who leaves a slot and is answered with a failure has joined a load, and the
entry tells of the failure: who has ended a load wakes the others first. -/
theorem failure_of_leave {hold : Hold (.acquire h k)} {found : Entry}
    {calls : List Call} {c' : Cache} (hs : hold.Since conduct c found calls)
    (ha : (Move.leave hold c').answer? = some (.error f)) :
    hold.errand.joins = true ∧ (c.entry hold.slot).failure = some f := by
  have hw := not_wakes_of_answer?_leave ha
  have hanswer : Except.error f = hold.sec.answer := answer?_leave hold c' _ ha
  have hj : hold.errand.joins = true := by
    obtain ⟨s, errand, sec⟩ := hold
    cases errand with
    | settle outcome => cases hw
    | join => rfl
  obtain ⟨-, -, -, hsec⟩ := join?_of_since hj hs
  rcases Entry.join?_cases hsec with ⟨-, heq⟩ | ⟨f', hf', heq⟩
  · rw [heq] at hanswer
    cases hanswer
  · rw [heq] at hanswer
    cases hanswer
    exact ⟨hj, hf'⟩

/-- Whoever ends a load with a failure evicts the slot, whose entry tells of
it. -/
theorem failure_of_settle {hold : Hold (.acquire h k)} {found : Entry}
    {calls : List Call} (hs : hold.Since conduct c found calls)
    (hw : hold.wakes = true) (ha : hold.sec.answer = .error f) :
    hold.sec.evicts = true ∧ hold.sec.entry.failure = some f := by
  obtain ⟨s, errand, sec⟩ := hold
  have hdoes := hs.does
  cases errand with
  | settle outcome =>
    cases outcome with
    | ok x =>
      cases hdoes
      cases ha
    | error f' =>
      cases hdoes
      cases ha
      exact ⟨rfl, rfl⟩
  | join => cases hw

/-- Whoever is about to wake the others and to return a failure has left it in
the entry of the slot, which the table does not list any more. -/
theorem failure_of_rouse (hmv : Moves free c p mv) (hp : p.Sound conduct c)
    (hq : mv.point? = some (.rouse s (.error f))) :
    c.Made s ∧ ¬ (mv.cacheAfter c).Listed s ∧
      ((mv.cacheAfter c).entry s).failure = some f := by
  cases hmv with
  | @leave _ hold hev =>
    obtain ⟨found, hs⟩ := hp
    have ha := (rouse_of_point?_leave hq).2
    have hev' := (failure_of_settle hs (wakes_of_point?_leave hq) ha).1
    exact absurd (hev.symm.trans hev') Bool.false_ne_true
  | @evict _ hold =>
    obtain ⟨-, found, hs⟩ := hp
    obtain ⟨rfl, ha⟩ := rouse_of_point?_leave hq
    rw [cacheAfter_leave, Cache.listed_setEntry, Cache.listed_evict,
      Cache.entry_setEntry_self (Cache.made_evict.2 hs.made)]
    exact ⟨hs.made, fun hl => hl.2 rfl,
      (failure_of_settle hs (wakes_of_point?_leave hq) ha).2⟩
  | answer ho hr => cases hr
  | _ => cases hq

end Moves

namespace Machine

variable {α : Type} {conduct : Conduct} {m₀ m m' : Machine α} {es : List Event}
  {i j : Nat} {h : Handle} {k : Kind} {p : Point (.acquire h k)}
  {next : Except Failure Unit → Program α} {s : SlotId} {f : Failure}

/-- A thread has looked up a slot that the table listed, or has made it then, in
the course of the request at which it still is. -/
def LooksUp (conduct : Conduct) (m₀ m : Machine α) (es : List Event) (i : Nat)
    (h : Handle) (k : Kind) (next : Except Failure Unit → Program α)
    (s : SlotId) : Prop :=
  ∃ (es₁ es₂ : List Event) (m₁ m₂ : Machine α),
    es = es₂ ++ (m₁.events i ++ es₁) ∧
    Course conduct m₀ es₁ m₁ ∧
    m₁.threads[i]? = some (.busy (.acquire h k) .begun next) ∧
    m₁.step i = some m₂ ∧ m₂.cache.find? h = some s ∧ Course conduct m₂ es₂ m ∧
    ∀ r a, Event.answered i r a ∉ es₂

theorem LooksUp.step (hl : LooksUp conduct m₀ m es i h k next s)
    (hs : m.step j = some m') (hno : ∀ r a, Event.answered i r a ∉ m.events j) :
    LooksUp conduct m₀ m' (m.events j ++ es) i h k next s := by
  obtain ⟨es₁, es₂, m₁, m₂, rfl, hr₁, hi, hlook, hfind, hr₂, hno₂⟩ := hl
  refine ⟨es₁, m.events j ++ es₂, m₁, m₂, (List.append_assoc _ _ _).symm, hr₁,
    hi, hlook, hfind, .step hr₂ hs, fun r a hmem => ?_⟩
  exact (List.mem_append.1 hmem).elim (hno r a) (hno₂ r a)

/-- Waking changes nothing about the slot in hand. -/
theorem busy_of_roused {w : Option SlotId} {r : Request} {q : Point r}
    {next : r.Reply → Program α} {t : Thread α}
    (ht : t.roused w = .busy r q next) :
    ∃ p : Point r, t = .busy r p next ∧ p.inHand? = q.inHand? := by
  cases t with
  | finished a => cases w <;> cases ht
  | busy r' p' next' =>
    rcases Thread.roused_busy w p' next' with heq | ⟨s, errand, rfl, heq⟩
    · rw [heq] at ht
      cases ht
      exact ⟨_, rfl, rfl⟩
    · rw [heq] at ht
      cases ht
      exact ⟨_, rfl, rfl⟩

/-- Whoever has a slot in hand looked it up in the course of its request. -/
theorem Course.looksUp (hr : Course conduct m₀ es m) (h₀ : m₀.Starts conduct)
    (hi : m.threads[i]? = some (.busy (.acquire h k) p next))
    (hs : p.inHand? = some s) : LooksUp conduct m₀ m es i h k next s := by
  induction hr generalizing p with
  | refl =>
    obtain ⟨program, heq, -⟩ := h₀.thread hi
    cases program <;> cases heq
    cases hs
  | @step es m m' j hr hstep ih =>
    obtain ⟨r, p', next', mv, hj, hmv, hev, rfl⟩ := Machine.step_cases hstep
    have hquiet : j ≠ i ∨ mv.answer? = none →
        ∀ r a, Event.answered i r a ∉ m.events j := by
      rintro hor r a hmem
      rw [hev] at hmem
      obtain ⟨a', ha', heq⟩ := Move.answered_mem_events.1 hmem
      rcases hor with hne | hnone
      · cases heq
        exact hne rfl
      · cases hnone.symm.trans ha'
    rcases getElem?_set_wake hi with ⟨rfl, ht⟩ | ⟨hij, t₀, ht₀, ht⟩
    · cases hmv' : mv with
      | blocked => exact absurd hmv' hmv.ne_blocked
      | reply a w c =>
        -- Whoever has just been answered has nothing in hand.
        rw [hmv', Move.thread] at ht
        cases hnext : next' a <;> rw [hnext] at ht <;> cases ht
        cases hs
      | go q c =>
        subst hmv'
        cases ht
        rcases hmv.inHand?_of_point? rfl hs with hs' | ⟨rfl, hfind⟩
        · exact (ih hj hs').step hstep (hquiet (.inr rfl))
        · exact ⟨es, [], m, _, rfl, hr, hj, hstep, hfind, .refl,
            fun _ _ => List.not_mem_nil⟩
    · obtain ⟨p', rfl, hp'⟩ := busy_of_roused ht.symm
      exact (ih ht₀ (hp'.trans hs)).step hstep (hquiet (.inl (Ne.symm hij)))
  | drift hr hc ih =>
    obtain ⟨es₁, es₂, m₁, m₂, heq, hr₁, hi₁, hlook, hfind, hr₂, hno⟩ := ih hi hs
    exact ⟨es₁, es₂, m₁, m₂, heq, hr₁, hi₁, hlook, hfind, .drift hr₂ hc, hno⟩
  | stir hr j ih =>
    obtain ⟨t₀, w, ht₀, ht⟩ := exists_of_getElem?_stir hi
    obtain ⟨p', rfl, hp'⟩ := busy_of_roused ht.symm
    obtain ⟨es₁, es₂, m₁, m₂, heq, hr₁, hi₁, hlook, hfind, hr₂, hno⟩ :=
      ih ht₀ (hp'.trans hs)
    exact ⟨es₁, es₂, m₁, m₂, heq, hr₁, hi₁, hlook, hfind, .stir hr₂ j, hno⟩

/-- Whoever is about to return a failure of its own load has left it in the
entry. -/
theorem Course.failure_of_rouse (hr : Course conduct m₀ es m)
    (h₀ : m₀.Starts conduct)
    (hi : m.threads[i]? =
      some (.busy (.acquire h k) (.rouse s (.error f)) next)) :
    m.cache.Made s ∧
      ¬ m.cache.Listed s ∧ (m.cache.entry s).failure = some f := by
  induction hr with
  | refl =>
    obtain ⟨program, heq, -⟩ := h₀.thread hi
    cases program <;> cases heq
  | @step es m m' j hr hstep ih =>
    have hinv := hr.inv h₀
    obtain ⟨r, p', next', mv, hj, hmv, -, rfl⟩ := Machine.step_cases hstep
    rcases getElem?_set_wake hi with ⟨rfl, ht⟩ | ⟨hij, t₀, ht₀, ht⟩
    · cases hmv' : mv with
      | blocked => exact absurd hmv' hmv.ne_blocked
      | reply a w c =>
        rw [hmv', Move.thread] at ht
        cases hnext : next' a <;> rw [hnext] at ht <;> cases ht
      | go q c =>
        subst hmv'
        cases ht
        obtain ⟨hmade, hrest⟩ := hmv.failure_of_rouse (hinv.sound _ _ hj).1 rfl
        exact ⟨hmv.effect.made hmade, hrest⟩
    · obtain ⟨p', rfl, -⟩ := busy_of_roused ht.symm
      rcases Thread.roused_busy mv.woken? p' next with
        heq | ⟨s', errand, -, heq⟩
      · rw [heq] at ht
        cases ht
        obtain ⟨hmade, hl, hf⟩ := ih ht₀
        have hkeep := hinv.keeps_gone hstep hmade hl
        exact ⟨hmv.effect.made hmade, fun hl' => hl (hkeep.listed.1 hl'),
          (congrArg Entry.failure hkeep.entry).trans hf⟩
      · rw [heq] at ht
        cases ht
  | drift hr hc ih =>
    obtain ⟨hmade, hl, hf⟩ := ih hi
    have hkeep := Cache.Keeps.of_shelves hc.shelves s
    exact ⟨(Cache.made_of_shelves hc.shelves s).2 hmade,
      fun hl' => hl (hkeep.listed.1 hl'),
      (congrArg Entry.failure hkeep.entry).trans hf⟩
  | stir hr j ih =>
    obtain ⟨t₀, w, ht₀, ht⟩ := exists_of_getElem?_stir hi
    obtain ⟨p', rfl, -⟩ := busy_of_roused ht.symm
    rcases Thread.roused_busy w p' next with heq | ⟨s', errand, -, heq⟩
    · rw [heq] at ht
      cases ht
      exact ih ht₀
    · rw [heq] at ht
      cases ht

/-- A failure that a load is answered with is the one that the entry of the slot
in hand tells of. -/
theorem Course.failure_of_answer (hr : Course conduct m₀ es m)
    (h₀ : m₀.Starts conduct) (hs : m.step i = some m')
    (hmem : Event.answered i (.acquire h k)
      (Except.error f : Except Failure Unit) ∈ m.events i) :
    ∃ (p : Point (.acquire h k)) (next : Except Failure Unit → Program α)
        (s : SlotId),
      m.threads[i]? = some (.busy (.acquire h k) p next) ∧ p.inHand? = some s ∧
        m.cache.Made s ∧ (m.cache.entry s).failure = some f := by
  obtain ⟨r, p, next, mv, hi, hmv, hev, -⟩ := Machine.step_cases hs
  rw [hev, Move.answered_mem_events] at hmem
  obtain ⟨a, ha, heq⟩ := hmem
  cases heq
  have hp := ((hr.inv h₀).sound i _ hi).1
  cases hmv with
  | answer ho hn => cases hn
  | @leave _ hold hev =>
    obtain ⟨found, hsince⟩ := hp
    exact ⟨_, next, hold.slot, hi, rfl, hsince.made,
      (Moves.failure_of_leave hsince ha).2⟩
  | @evict _ hold =>
    obtain ⟨hev, found, hsince⟩ := hp
    have hjoins := (Moves.failure_of_leave hsince ha).1
    have hno := (Moves.join?_of_since hjoins hsince).2.2.1
    exact absurd (hno.symm.trans hev) Bool.false_ne_true
  | @rouse _ s a =>
    cases ha
    obtain ⟨hmade, -, hf⟩ := hr.failure_of_rouse h₀ hi
    exact ⟨_, next, s, hi, rfl, hmade, hf⟩
  | _ => cases ha

end Machine

/-! ### What loads return -/

/-- Ends with a failure as soon as a request to load is answered with it. -/
def Program.StopsAtFailure {β : Type} : Program (Except Failure β) → Prop
  | .done _ => True
  | .ask (.acquire _ _) next =>
    (∀ f, next (.error f) = .done (.error f)) ∧ ∀ a, (next a).StopsAtFailure
  | .ask _ next => ∀ a, (next a).StopsAtFailure

theorem Cache.acquireAll_stopsAtFailure (t : TypeId) (k : Kind)
    (names : List NameId) : (acquireAll t k names).StopsAtFailure := by
  induction names with
  | nil => trivial
  | cons n ns ih =>
    refine ⟨fun f => rfl, fun a => ?_⟩
    cases a with
    | ok u => exact ih
    | error f => trivial

theorem Cache.load_stopsAtFailure (t : TypeId) (names : List NameId) :
    (load t names).StopsAtFailure := by
  unfold load
  split
  · trivial
  · intro k?
    cases k? with
    | none => trivial
    | some k => exact acquireAll_stopsAtFailure t k names

namespace Machine

variable {α : Type} {conduct : Conduct} {m₀ m : Machine α} {es₀ : List Event}

/-- Callers that join the load of a slot share its outcome, whatever else goes
on.  From when it has joined until it is answered, a caller keeps to the slot
and makes none; if the load fails it is answered with the failure that the entry
tells of, if it succeeds the caller takes one reference, or starts over after
the resource was unloaded.  And whoever is answered with a failure, having made
the slot or joined, is told why the load of a slot failed that the table listed
when the caller looked it up in the course of this very request; to load names
returns that failure. -/
theorem waiters (h₀ : m₀.Starts conduct) (hr₀ : Course conduct m₀ es₀ m) :
    (∀ (i : Nat) (h : Handle) (k : Kind) (p : Point (.acquire h k))
        (next : Except Failure Unit → Program α) (s : SlotId),
      m.Joins i s p next →
      ∀ (es : List Event) (m' : Machine α), Course conduct m es m' →
        (∀ r a, Event.answered i r a ∉ es) →
        (∃ q : Point (.acquire h k), m'.Joins i s q next ∧
          (∀ s' d, Event.did i s' d ∉ es) ∧
          m'.Shares conduct (es ++ es₀) i s q next ∧
          ((m.cache.entry s).failure ≠ none → q.stepsToJoin ≤ p.stepsToJoin)) ∨
        (m'.cache.entry s).failure = none ∧
          StartsOver conduct m m' es₀ es i s h k next) ∧
    (∀ (i : Nat) (h : Handle) (k : Kind) (f : Failure) (m' : Machine α),
      m.step i = some m' →
      Event.answered i (.acquire h k) (Except.error f : Except Failure Unit) ∈
        m.events i →
      ∃ (next : Except Failure Unit → Program α) (s : SlotId),
        LooksUp conduct m₀ m es₀ i h k next s ∧
          (m.cache.entry s).failure = some f ∧
          conduct.LoadFails h f ∧ .failed ∈ Event.deedsOn s es₀) ∧
    ∀ (t : TypeId) (names : List NameId),
    (Cache.load t names).StopsAtFailure := by
  refine ⟨?_, ?_, Cache.load_stopsAtFailure⟩
  · intro i h k p next s hj es m' hr hno
    rcases hr₀.joins h₀ hj hr hno with ⟨q, hq, hdid, hle⟩ | hover
    · exact .inl ⟨q, hq, hdid, hq.shares h₀ (hr₀.trans hr), hle⟩
    · obtain ⟨es₁, es₂, m₁, -, hr₁, hr₂, -, hl, hf, -⟩ := id hover
      have hmade := hr₁.made (hj.made (hr₀.inv h₀))
      have hkeep := hr₂.keeps_gone (hr₁.keeps (hr₀.inv h₀)) hmade hl
      exact .inr ⟨(congrArg Entry.failure hkeep.entry).trans hf, hover⟩
  · intro i h k f m' hs hans
    obtain ⟨p, next, s, hi, hhand, hmade, hf⟩ :=
      hr₀.failure_of_answer h₀ hs hans
    have hlook := hr₀.looksUp h₀ hi hhand
    obtain rfl : s.handle = h := by
      obtain ⟨es₁, es₂, m₁, m₂, -, -, -, -, hfind, -⟩ := hlook
      exact (Cache.find?_eq_some_iff.1 hfind).1
    have hfate := hr₀.fate h₀ s
    rcases hfate.of_not_listed hmade (hfate.not_listed_of_failure hmade hf) with
      ⟨f', hf', hfails, hdeed, -⟩ | ⟨hnone, -⟩
    · cases hf.symm.trans hf'
      exact ⟨next, s, hlook, hf, hfails, hdeed⟩
    · cases hnone.symm.trans hf

/-- Callers of a cache whose source has nothing. -/
def unsupplied (programs : List (Program α)) : Machine α :=
  { callers programs with
    cache := { (callers programs).cache with source := .memory Table.empty } }

/-- One of two callers loads and finds no bytes, while the other sleeps: the
other returns the same failure, without a load of its own. -/
theorem waiters_of_unsupplied :
    (unsupplied [loader, loader]).Starts rawConduct ∧
      ∃ (es es' : List Event) (m m' m'' : Machine (Except Failure Unit))
        (next : Except Failure Unit → Program (Except Failure Unit)),
        Course rawConduct (unsupplied [loader, loader]) es m ∧
          m.Joins 1 ⟨theirs, 0⟩
            (.parked ⟨theirs, 0⟩ (.join (h := theirs) (k := Kind.raw 3))) next ∧
          Course rawConduct m es' m' ∧ m'.step 1 = some m'' ∧
          m''.cache.entry ⟨theirs, 0⟩ = m'.cache.entry ⟨theirs, 0⟩ ∧
          (∀ s d, Event.did 1 s d ∉ es') ∧
          m''.threads[1]? =
            some (.finished (.error (.noBytes theirs (.noData theirs)))) := by
  have h₀ : (unsupplied [loader, loader]).Starts rawConduct := by
    have hstarts : (callers [loader, loader]).Starts rawConduct := by
      refine starts_callers fun p hp => ?_
      have hloader : p = loader := by simpa using hp
      rw [hloader]
      exact Cache.load_honest _ _
    exact ⟨hstarts.shelves, hstarts.log, hstarts.threads, hstarts.conduct⟩
  obtain ⟨es, m, m', m'', next, hf, hf', hi, hi', hfail, hs, hnext⟩ :
      ∃ es m m' m'' next,
        (unsupplied [loader, loader]).follow
              (List.replicate 5 1 ++ List.replicate 5 0) =
            some (es, m) ∧
          m.follow (1 :: List.replicate 5 0) =
            some ([.answered 0 (.acquire theirs (Kind.raw 3))
              (Except.error (.noBytes theirs (.noData theirs)) : Except
                Failure Unit),
              .did 0 ⟨theirs, 0⟩ .failed], m') ∧
          m.threads[1]? =
            some (.busy (.acquire theirs (Kind.raw 3))
              (.parked ⟨theirs, 0⟩ .join) next) ∧
          m'.threads[1]? = some (.busy (.acquire theirs (Kind.raw 3))
            (.inside ⟨⟨theirs, 0⟩, .join, Entry.answering
              { state := .unloaded,
                failure := some (.noBytes theirs (.noData theirs)) }
              (.error (.noBytes theirs (.noData theirs)))⟩ []) next) ∧
          (m'.cache.entry ⟨theirs, 0⟩).failure =
            some (.noBytes theirs (.noData theirs)) ∧
          m'.step 1 = some m'' ∧
            ∀ f, Thread.ofProgram (next (.error f)) = .finished (.error f) :=
    ⟨_, _, _, _, _, rfl, rfl, rfl, rfl, rfl, rfl, fun _ => rfl⟩
  have hr : Course rawConduct _ es m := course_of_follow hf
  have hr' : Course rawConduct m _ m' := course_of_follow hf'
  rcases (waiters h₀ hr).1 1 theirs (Kind.raw 3) _ next ⟨theirs, 0⟩ ⟨hi, rfl⟩ _
    m' hr' (by simp) with
    ⟨q, hq, hdid, hshares, -⟩ | ⟨hnone, -⟩
  · obtain ⟨hcache, ⟨q', -, hlt⟩ | ⟨-, hend⟩⟩ := hshares.failed _ _ hfail hs
    · cases hi'.symm.trans hq.thread
      cases q' <;> simp [Point.stepsToJoin] at hlt
    · rw [hnext] at hend
      exact ⟨h₀, es, _, m, m', m'', next, hr, ⟨hi, rfl⟩, hr',
        hs, by rw [hcache], hdid, hend⟩
  · cases hfail.symm.trans hnone

end Machine

end ResourceHost
