import ResourceHost.Proofs.Threads.Courses

/-!
# Slots that are evicted while somebody has them in hand

An operation finds its slot first and locks it later; in between the slot may
be evicted.  Then the operation goes on without a callback and without a change
to the cache, and answers as on a handle that has no entry.  The exception is a
release, which counts down an entry that is gone and answers with success.
-/

namespace ResourceHost

/-- What an operation answers that finds the entry gone. -/
def Visit.stale (h : Handle) : (v : Visit) → v.Reply
  | .release => (.ok 0 : Except Failure Nat)
  | v => v.absent h

/-- Only a release tells a slot that is gone from a handle without an entry. -/
theorem Visit.stale_eq_absent_iff (h : Handle) (v : Visit) :
    v.stale h = v.absent h ↔ v ≠ .release := by
  cases v with
  | release => exact iff_of_false nofun fun hne => hne rfl
  | _ => exact iff_of_true rfl nofun

theorem Cache.visit_of_absent {c : Cache} {h : Handle} (hc : c.find? h = none)
    (v : Visit) : c.visit h v = (v.absent h, c) := by
  rw [visit, hc]

/-- An operation that knows the kind, if it asks for it, answers so when it
finds the entry gone. -/
theorem Visit.answer_inside_of_gone {h : Handle} {v : Visit} {e : Entry}
    {kind? : Option Kind} (he : e.Gone)
    (hk : v.consults = .never ∨ kind?.isSome) :
    (v.inside h kind? e).answer = v.stale h := by
  have hs := he.state
  cases v with
  | get => simp [inside, Entry.answering, Entry.get, hs, stale, absent]
  | state => simp [inside, Entry.answering, hs, stale, absent]
  | refCount => simp [inside, Entry.answering, he.refCount, stale, absent]
  | release => simp [inside, Entry.release, he.refCount, stale]
  | offline =>
    simp [inside, Entry.takeOffline, hs, Entry.answering, stale, absent]
  | online =>
    simp [inside, Entry.bringOnline, hs, Entry.answering, stale, absent]
  | reload bytes =>
    obtain ⟨k, rfl⟩ :=
      Option.isSome_iff_exists.1 (hk.resolve_left (by simp [consults]))
    simp [inside, Entry.reload, hs, Entry.answering, stale, absent]
  | unload =>
    obtain ⟨k, rfl⟩ :=
      Option.isSome_iff_exists.1 (hk.resolve_left (by simp [consults]))
    simp [inside, Entry.unload, hs, Entry.answering, stale, absent]

namespace Point

variable {r : Request}

/-- The slot that a thread has found and is about to lock, or has locked. -/
def found? : Point r → Option SlotId
  | .consult s _ _ | .consulting s _ _ | .enter s _ => some s
  | .inside hold _ => some hold.slot
  | _ => none

/-- How many steps of its own are left, at most, if there is nothing to do. -/
def stepsLeft : Point r → Nat
  | .consult _ _ false => 6
  | .consulting _ _ false => 5
  | .enter _ _ => 4
  | .consult _ _ true => 3
  | .consulting _ _ true => 2
  | _ => 1

theorem found?_of_opening {p : Point r} (ho : p.Opening) : p.found? = none := by
  rcases ho with ⟨rfl, -⟩ | rfl
  · rfl
  · rfl

theorem made_of_found? {conduct : Conduct} {c : Cache} {p : Point r}
    {s : SlotId} (hp : p.Sound conduct c) (hs : p.found? = some s) :
    c.Made s := by
  cases p with
  | consult s' errand locked =>
    cases hs
    exact hp.2.1
  | consulting s' errand locked =>
    cases hs
    exact hp.2.1
  | enter s' errand =>
    cases hs
    exact hp.2.1
  | inside hold calls => exact made_of_slot? hp hs
  | _ => cases hs

theorem callback?_of_found? {p : Point r} {s : SlotId}
    (hs : p.found? = some s) : p.callback? = none := by
  cases p <;> first | rfl | cases hs

end Point

/-! ### A step at a slot that is gone -/

/-- Whoever has locked a slot that is gone lets it go as it was. -/
theorem Hold.leave_gone {conduct : Conduct} {c : Cache} {h : Handle} {v : Visit}
    {hold : Hold (.visit h v)} {found : Entry}
    (hs : hold.Since conduct c found []) (hl : ¬ c.Listed hold.slot) :
    Move.leave hold c = .reply (v.stale h) none c := by
  have hgone : found.Gone := hs.settled.gone_of_not_listed hl
  have hentry : c.entry hold.slot = found := by
    rcases hs.stands with ⟨-, he⟩ | ⟨call, hmem, -⟩
    · exact he
    · exact absurd (hs.tidy_of_mem hmem).1 hl
  obtain ⟨slot, errand, sec⟩ := hold
  cases errand with
  | visit kind? =>
    have hsec : v.inside h kind? found = sec := Option.some.inj hs.does
    subst hsec
    have hidle : (v.inside h kind? found).Idle found :=
      Visit.inside_idle v hgone.blank
    have hanswer : (v.inside h kind? found).answer = v.stale h := by
      refine Visit.answer_inside_of_gone hgone ?_
      rcases hs.briefed with ⟨-, hn⟩ | ⟨k, hk, -⟩
      · exact .inl hn
      · exact .inr (Option.isSome_of_eq_some hk)
    have hsame : c.setEntry slot (v.inside h kind? found).entry = c := by
      rw [hidle.entry, ← hentry]
      exact Cache.setEntry_entry hs.made
    have hwakes :
        Hold.wakes (r := .visit h v)
          ⟨slot, .visit kind?, v.inside h kind? found⟩ = false :=
      hidle.evicts
    rw [Moves.leave_of_not_wakes hwakes, hsame, hanswer]

/-- A thread that has found a slot which is gone does not touch the cache: it
comes closer to its answer, or gives it. -/
theorem Moves.stale {conduct : Conduct} {free : Free} {c : Cache} {h : Handle}
    {v : Visit} {p : Point (.visit h v)} {mv : Move (.visit h v)} {s : SlotId}
    (hmv : Moves free c p mv) (hp : p.Sound conduct c) (hs : p.found? = some s)
    (hl : ¬ c.Listed s) :
    (∃ q, mv = .go q c ∧ q.found? = some s ∧ q.stepsLeft < p.stepsLeft) ∨
      mv = .reply (v.stale h) none c := by
  have hwork : ∀ {errand : Errand (.visit h v)} {s : SlotId} {e : Entry},
      errand.section? s e ≠ none := by
    intro errand s e
    cases errand
    exact nofun
  -- On a slot that is gone a section has no callback and evicts nothing, so it
  -- ends at once.
  cases hmv with
  | answer ho hr => cases hr
  | absent ho hf => rw [Point.found?_of_opening ho] at hs; cases hs
  | find ho hf hv => rw [Point.found?_of_opening ho] at hs; cases hs
  | findAndAsk ho hf hv => rw [Point.found?_of_opening ho] at hs; cases hs
  | @ask _ s' errand locked hf =>
    refine .inl ⟨_, rfl, hs, ?_⟩
    cases locked with
    | true => exact Nat.lt_succ_self _
    | false => exact Nat.lt_succ_self _
  | told => exact .inl ⟨_, rfl, hs, Nat.lt_succ_self _⟩
  | toldAndWork hsec => exact .inl ⟨_, rfl, hs, Nat.lt_succ_self _⟩
  | toldAndStart hsec => exact absurd hsec hwork
  | @park _ s' errand hf hw => cases errand; cases hw
  | hold hf hc => exact .inl ⟨_, rfl, hs, Nat.lt_succ_self _⟩
  | work hf hw hc hsec => exact .inl ⟨_, rfl, hs, show 1 < 4 by decide⟩
  | restart hf hw hc hsec => exact absurd hsec hwork
  | call =>
    cases hs
    obtain ⟨found, hsince⟩ := hp
    exact absurd (hsince.tidy_of_mem hsince.tail.1).1 hl
  | wait hev =>
    cases hs
    obtain ⟨found, hsince⟩ := hp
    exact absurd (hsince.listed_of_evicts hev) hl
  | leave hev =>
    cases hs
    obtain ⟨found, hsince⟩ := hp
    exact .inr (Hold.leave_gone hsince hl)
  | _ => cases hs

/-- A thread that has found a slot and cannot move needs a lock that it does not
have and that is not free. -/
theorem Move.needs_of_blocked {free : Free} {c : Cache} {h : Handle} {v : Visit}
    {p : Point (.visit h v)} {s : SlotId} (hs : p.found? = some s)
    (hb : Move.next free p c = .blocked) :
    p.leaf? = none ∧ free.leaf .registry ≠ true ∨
      p.slot? = none ∧ free.slot s ≠ true := by
  cases p with
  | consult s' errand locked =>
    refine .inl ⟨rfl, fun hf => ?_⟩
    simp only [Move.next, hf, if_true] at hb
    cases hb
  | consulting s' errand locked =>
    cases locked with
    | false => cases hb
    | true => exact absurd hb (Move.work_ne_blocked _ _ _)
  | enter s' errand =>
    cases hs
    refine .inr ⟨rfl, fun hf => ?_⟩
    simp only [Move.next, hf, if_true, Move.enter] at hb
    split at hb
    · cases hb
    · split at hb
      · cases hb
      · exact Move.work_ne_blocked _ _ _ hb
  | inside hold calls =>
    cases calls with
    | cons call rest => cases hb
    | nil =>
      simp only [Move.next] at hb
      split at hb
      · cases hb
      · exact absurd hb (Move.leave_ne_blocked hold c)
  | _ => cases hs

/-- What is not listed any more is not listed again. -/
theorem Effect.not_listed {r : Request} {c : Cache} {p : Point r} {mv : Move r}
    {d : Option (SlotId × Deed)} {s : SlotId} (he : Effect c p mv d)
    (hm : c.Made s) (hl : ¬ c.Listed s) : ¬ (mv.cacheAfter c).Listed s := by
  cases he with
  | still hc => exact fun h => hl ((Cache.Keeps.of_shelves hc s).listed.1 h)
  | opens hr hf hq hlock hd =>
    exact fun h => hl ((Cache.keeps_openSlot hm hf).listed.1 h)
  | calls => exact fun h => hl (Cache.listed_setEntry.1 h)
  | leaves hev =>
    rw [Moves.cacheAfter_leave, Cache.listed_setEntry]
    exact hl
  | evicts =>
    rw [Moves.cacheAfter_leave, Cache.listed_setEntry, Cache.listed_evict]
    exact fun h => hl h.1

/-! ### Along a course -/

namespace Machine

variable {α : Type} {conduct : Conduct} {m₀ m m' : Machine α}
  {es es' : List Event} {i : Nat} {h : Handle} {v : Visit}
  {next : v.Reply → Program α} {s : SlotId}

/-- A thread is at an operation whose slot has been evicted. -/
structure Lingers (m : Machine α) (i : Nat) (s : SlotId) {h : Handle}
    {v : Visit} (p : Point (.visit h v)) (next : v.Reply → Program α) :
    Prop where
  thread : m.threads[i]? = some (.busy (.visit h v) p next)
  found : p.found? = some s
  made : m.cache.Made s
  gone : ¬ m.cache.Listed s

/-- The step of such a thread: closer to the answer, or the answer. -/
theorem Lingers.own_step {p : Point (.visit h v)} (hg : m.Lingers i s p next)
    (hinv : m.Inv conduct) (hs : m.step i = some m') :
    m'.cache = m.cache ∧
      ((∃ q : Point (.visit h v), m'.Lingers i s q next ∧
          q.stepsLeft < p.stepsLeft) ∨
        Event.answered i (.visit h v) (v.stale h) ∈ m.events i ∧
          m'.threads[i]? = some (.ofProgram (next (v.stale h)))) := by
  obtain ⟨r, p', next', mv, hi, hmv, hev, rfl⟩ := step_cases hs
  have heq := hi.symm.trans hg.thread
  cases heq
  have hself : ((wake mv.woken? m.threads).set i (mv.thread p next))[i]? =
      some (mv.thread p next) := getElem?_set_wake_self hi
  rcases hmv.stale (hinv.sound i _ hi).1 hg.found hg.gone with
    ⟨q, rfl, hq, hless⟩ | rfl
  · exact ⟨rfl, .inl ⟨q, ⟨hself, hq, hg.made, hg.gone⟩, hless⟩⟩
  · refine ⟨rfl, .inr ⟨?_, hself⟩⟩
    rw [hev]
    exact List.mem_append_left _ (List.mem_singleton.2 rfl)

/-- It does not sleep. -/
theorem Lingers.roused {p : Point (.visit h v)} (hg : m.Lingers i s p next)
    (w : Option SlotId) :
    Thread.roused w (.busy (.visit h v) p next) =
      .busy (.visit h v) p next := by
  rcases Thread.roused_busy w p next with heq | ⟨s', errand, rfl, -⟩
  · exact heq
  · cases hg.found

/-- A step of another thread leaves it where it is. -/
theorem Lingers.other_step {p : Point (.visit h v)} (hg : m.Lingers i s p next)
    {j : Nat} (hij : i ≠ j) (hs : m.step j = some m') :
    m'.Lingers i s p next := by
  obtain ⟨r, p', next', mv, hj, hmv, hev, rfl⟩ := step_cases hs
  refine ⟨?_, hg.found, hmv.effect.made hg.made,
    hmv.effect.not_listed hg.made hg.gone⟩
  exact (getElem?_set_wake_of_ne hij hg.thread).trans
    (congrArg some (hg.roused _))

theorem Lingers.stir {p : Point (.visit h v)} (hg : m.Lingers i s p next)
    (j : Nat) : (m.stir j).Lingers i s p next := by
  obtain ⟨w, hw⟩ := getElem?_stir (i := j) hg.thread
  exact ⟨hw.trans (congrArg some (hg.roused w)), hg.found, hg.made, hg.gone⟩

theorem exists_leaf_of_not_free {l : Leaf} (hf : m.free.leaf l ≠ true) :
    ∃ (j : Nat) (t : Thread α), m.threads[j]? = some t ∧ t.leaf? = some l := by
  by_cases h : ∃ (j : Nat) (t : Thread α), m.threads[j]? = some t ∧
    t.leaf? = some l
  · exact h
  · refine absurd (List.all_eq_true.2 fun t ht => ?_) hf
    obtain ⟨j, hj⟩ := List.getElem?_of_mem ht
    simpa using fun heq => h ⟨j, t, hj, heq⟩

theorem exists_slot_of_not_free {s : SlotId} (hf : m.free.slot s ≠ true) :
    ∃ (j : Nat) (t : Thread α), m.threads[j]? = some t ∧ t.slot? = some s := by
  by_cases h : ∃ (j : Nat) (t : Thread α), m.threads[j]? = some t ∧
    t.slot? = some s
  · exact h
  · exact absurd (free_slot_iff.2 fun j t hj heq => h ⟨j, t, hj, heq⟩) hf

/-- Such a thread cannot move only while another one has the lock that it needs
next. -/
theorem Lingers.blocked {p : Point (.visit h v)} (hg : m.Lingers i s p next)
    (hs : m.step i = none) :
    ∃ (j : Nat) (t : Thread α), j ≠ i ∧ m.threads[j]? = some t ∧
      (t.slot? = some s ∨ t.leaf? = some .registry) := by
  rcases Move.needs_of_blocked hg.found
    (next_eq_blocked_of_step hg.thread hs) with
    ⟨hleaf, hf⟩ | ⟨hslot, hf⟩
  · obtain ⟨j, t, hj, ht⟩ := exists_leaf_of_not_free hf
    refine ⟨j, t, ?_, hj, .inr ht⟩
    rintro rfl
    cases Option.some.inj (hg.thread.symm.trans hj)
    cases hleaf.symm.trans ht
  · obtain ⟨j, t, hj, ht⟩ := exists_slot_of_not_free hf
    refine ⟨j, t, ?_, hj, .inl ht⟩
    rintro rfl
    cases Option.some.inj (hg.thread.symm.trans hj)
    cases hslot.symm.trans ht

/-- It stays so until the thread is answered. -/
theorem Course.lingers (hr : Course conduct m es m') (hinv : m.Inv conduct)
    {p : Point (.visit h v)} (hg : m.Lingers i s p next)
    (hno : ∀ r a, Event.answered i r a ∉ es) :
    ∃ q : Point (.visit h v), m'.Lingers i s q next := by
  induction hr with
  | refl => exact ⟨p, hg⟩
  | @step es m' m'' j hr hs ih =>
    obtain ⟨q, hq⟩ := ih fun r a hmem => hno r a (List.mem_append_right _ hmem)
    by_cases hij : i = j
    · subst hij
      obtain ⟨-, ⟨q', hq', -⟩ | ⟨hans, -⟩⟩ := hq.own_step (hr.keeps hinv) hs
      · exact ⟨q', hq'⟩
      · exact absurd (List.mem_append_left _ hans) (hno _ _)
    · exact ⟨q, hq.other_step hij hs⟩
  | drift hr hc ih =>
    obtain ⟨q, hq⟩ := ih hno
    refine ⟨q, hq.thread, hq.found,
      (Cache.made_of_shelves hc.shelves s).2 hq.made, ?_⟩
    exact fun hl => hq.gone ((Cache.Keeps.of_shelves hc.shelves s).listed.1 hl)
  | stir hr j ih =>
    obtain ⟨q, hq⟩ := ih hno
    exact ⟨q, hq.stir j⟩

/-- When the slot that an operation has found is evicted before the operation
has locked it, then until the operation is answered, whatever other threads do,
it makes no callback, no step of its own changes the cache, and it comes closer
to its answer with every step, which only the lock of the slot or of the
registry in other hands can put off; and it is answered as on a handle that has
no entry, unless it is a release. -/
theorem stale_visit (h₀ : m₀.Starts conduct) (hr₀ : Course conduct m₀ es m)
    {p : Point (.visit h v)}
    (hi : m.threads[i]? = some (.busy (.visit h v) p next))
    (hs : p.found? = some s) (hl : ¬ m.cache.Listed s)
    (hr : Course conduct m es' m') (hno : ∀ r a, Event.answered i r a ∉ es') :
    ∃ p' : Point (.visit h v),
      m'.threads[i]? = some (.busy (.visit h v) p' next) ∧
      p'.callback? = none ∧
      (∀ m'', m'.step i = some m'' → m''.cache = m'.cache ∧
        ((∃ p'' : Point (.visit h v),
            m''.threads[i]? = some (.busy (.visit h v) p'' next) ∧
            p''.stepsLeft < p'.stepsLeft) ∨
          m''.threads[i]? = some (.ofProgram (next (v.stale h))))) ∧
      (m'.step i = none →
        ∃ (j : Nat) (t : Thread α), j ≠ i ∧ m'.threads[j]? = some t ∧
        (t.slot? = some s ∨ t.leaf? = some .registry)) ∧
      ∀ c : Cache, c.find? h = none →
        (v.stale h = ((Request.visit h v).run c).1 ↔ v ≠ .release) := by
  have hinv : m.Inv conduct := hr₀.inv h₀
  have hmade : m.cache.Made s := Point.made_of_found? (hinv.sound i _ hi).1 hs
  obtain ⟨q, hq⟩ := hr.lingers hinv ⟨hi, hs, hmade, hl⟩ hno
  refine ⟨q, hq.thread, Point.callback?_of_found? hq.found, ?_, hq.blocked, ?_⟩
  · intro m'' hstep
    obtain ⟨hcache, ⟨q', hq', hless⟩ | ⟨-, hans⟩⟩ :=
      hq.own_step (hr.keeps hinv) hstep
    · exact ⟨hcache, .inl ⟨q', hq'.thread, hless⟩⟩
    · exact ⟨hcache, .inr hans⟩
  · intro c hc
    rw [show (Request.visit h v).run c = c.visit h v from rfl,
      Cache.visit_of_absent hc]
    exact v.stale_eq_absent_iff h

/-- Evicts what is theirs. -/
def evicter : Program (Except Failure Unit) := Cache.unload theirs

/-- Reads what is theirs. -/
def reader : Program (Except Failure Unit) :=
  (Cache.get theirs).orStop fun _ => pure (.ok ())

/-- What is theirs is loaded; the third caller finds its slot; the second one
evicts it. -/
def eviction : List Nat := List.replicate 13 1 ++ [2, 2] ++ List.replicate 11 0

/-- A reader that has found a slot which is evicted is told what it would be
told without an entry. -/
theorem stale_visit_of_reader :
    (callers [loader, evicter, reader]).Starts rawConduct ∧
      ∃ (es : List Event) (m : Machine (Except Failure Unit))
        (next : Except Failure Representation → Program (Except Failure Unit)),
        Course rawConduct (callers [loader, evicter, reader]) es m ∧
          m.threads[2]? =
            some (.busy (.visit theirs .get) (.enter ⟨theirs, 0⟩ (.visit none))
              next) ∧
          m.cache.find? theirs = none ∧
          (∀ m', m.step 2 = some m' → m'.cache = m.cache) ∧
          Visit.get.stale theirs =
            ((Request.visit theirs .get).run m.cache).1 := by
  have h₀ : (callers [loader, evicter, reader]).Starts rawConduct := by
    refine starts_callers fun p hp => ?_
    have hcases : p = loader ∨ p = evicter ∨ p = reader := by simpa using hp
    rcases hcases with rfl | rfl | rfl
    · exact Cache.load_honest _ _
    · exact Cache.unload_honest _
    · exact (Cache.get_honest _).orStop fun _ _ => trivial
  obtain ⟨es, m, next, hf, hi, hfree⟩ :
      ∃ es m next,
        (callers [loader, evicter, reader]).follow eviction = some (es, m) ∧
        m.threads[2]? =
          some (.busy (.visit theirs .get) (.enter ⟨theirs, 0⟩ (.visit none))
            next) ∧
        m.cache.find? theirs = none := ⟨_, _, _, rfl, rfl, rfl⟩
  have hr : Course rawConduct (callers [loader, evicter, reader]) es m :=
    course_of_follow hf
  have hl : ¬ m.cache.Listed ⟨theirs, 0⟩ := by
    intro hl
    cases hfree.symm.trans hl
  obtain ⟨p', hp', -, hown, -, hanswer⟩ :=
    stale_visit h₀ hr hi rfl hl .refl nofun
  exact ⟨h₀, es, m, next, hr, hi, hfree, fun m' hm' => (hown m' hm').1,
    (hanswer m.cache hfree).2 nofun⟩

/-- A release that has found a slot which is evicted succeeds, though without an
entry it would be refused. -/
theorem release_of_evicted :
    (callers [loader, evicter, dropper]).Starts rawConduct ∧
      ∃ (es : List Event) (m m₁ m₂ : Machine (Except Failure Unit))
        (next : Except Failure Nat → Program (Except Failure Unit)),
        Course rawConduct (callers [loader, evicter, dropper]) es m ∧
          m.threads[2]? =
            some (.busy (.visit theirs .release)
              (.enter ⟨theirs, 0⟩ (.visit none)) next) ∧
          m.cache.find? theirs = none ∧ m.step 2 = some m₁ ∧
          m₁.step 2 = some m₂ ∧
          Event.answered 2 (.visit theirs .release)
            (.ok 0 : Except Failure Nat) ∈ m₁.events 2 ∧
          ((Request.visit theirs .release).run m.cache).1 =
            (.error (.notLoaded theirs) : Except Failure Nat) := by
  have h₀ : (callers [loader, evicter, dropper]).Starts rawConduct := by
    refine starts_callers fun p hp => ?_
    have hcases : p = loader ∨ p = evicter ∨ p = dropper := by simpa using hp
    rcases hcases with rfl | rfl | rfl
    · exact Cache.load_honest _ _
    · exact Cache.unload_honest _
    · exact (Cache.release_honest _).orStop fun _ _ => trivial
  have hf : ∃ es m m₁ m₂ next,
      (callers [loader, evicter, dropper]).follow eviction = some (es, m) ∧
        m.threads[2]? =
          some (.busy (.visit theirs .release)
            (.enter ⟨theirs, 0⟩ (.visit none)) next) ∧
        m.cache.find? theirs = none ∧ m.step 2 = some m₁ ∧ m₁.step 2 = some m₂ ∧
        Event.answered 2 (.visit theirs .release) (.ok 0 : Except Failure Nat) ∈
          m₁.events 2 ∧
        ((Request.visit theirs .release).run m.cache).1 =
          (.error (.notLoaded theirs) : Except Failure Nat) :=
    ⟨_, _, _, _, _, rfl, rfl, rfl, rfl, rfl, List.mem_cons_self, rfl⟩
  obtain ⟨es, m, m₁, m₂, next, hf, hrest⟩ := hf
  exact ⟨h₀, es, m, m₁, m₂, next, course_of_follow hf, hrest⟩

end Machine

end ResourceHost
