import ResourceHost.Proofs.Threads.Invariant

/-!
# Courses

A course is any number of steps of any threads, in any order.  Between two steps
the world around the cache may change: the source, and what the registered types
do when they are called.  A thread that sleeps may also wake for no reason;
whoever wakes so does no more than look again.  A course keeps a record of what
was done to the slots, of what befell handles and of the answers that were
given, the latest first.

A thread that starts later, such as one that uses the cache within a callback
for another handle, is one that has not moved before.
-/

namespace ResourceHost

/-- What is recorded of a step. -/
inductive Event where
  /-- A thread did something to a slot. -/
  | did (thread : Nat) (slot : SlotId) (deed : Deed)
  /-- Something befell a handle. -/
  | befell (happening : Happening)
  /-- A request of a thread was answered. -/
  | answered (thread : Nat) (request : Request) (answer : request.Reply)

/-- Changes around a cache: its slots and its log stay, and so do the kinds that
are registered, though they may act in another way. -/
structure Cache.Drifts (conduct : Conduct) (c c' : Cache) : Prop where
  shelves : c'.shelves = c.shelves
  log : c'.log = c.log
  knows : ∀ t k, c.Knows t k → c'.Knows t k
  conduct : ∀ t k, c'.kind? t = some k → conduct t k

/-- What is recorded of a move of a thread, but for its answer. -/
def Move.marks {r : Request} (i : Nat) (p : Point r) (c : Cache) (mv : Move r) :
    List Event :=
  ((p.deed? c).map fun d => Event.did i d.1 d.2).toList ++
    ((mv.happening? p c).map Event.befell).toList

/-- What is recorded of a move of a thread. -/
def Move.events {r : Request} (i : Nat) (p : Point r) (c : Cache)
    (mv : Move r) : List Event :=
  (mv.answer?.map (Event.answered i r)).toList ++ mv.marks i p c

namespace Move

variable {r : Request} {i j : Nat} {p : Point r} {c : Cache} {mv : Move r}

/-- A deed is recorded of the thread that does it in its next step. -/
theorem did_mem_events {s : SlotId} {d : Deed} :
    Event.did i s d ∈ mv.events j p c ↔ i = j ∧ p.deed? c = some (s, d) := by
  simp only [events, marks, List.mem_append, Option.mem_toList,
    Option.map_eq_some_iff]
  constructor
  · rintro (⟨a, -, ha⟩ | ⟨⟨s', d'⟩, hd, heq⟩ | ⟨x, -, hx⟩)
    · cases ha
    · cases heq
      exact ⟨rfl, hd⟩
    · cases hx
  · rintro ⟨rfl, hd⟩
    exact .inr (.inl ⟨(s, d), hd, rfl⟩)

/-- An answer is recorded of the thread that is given it. -/
theorem answered_mem_events {r' : Request} {a' : r'.Reply} :
    Event.answered i r' a' ∈ mv.events j p c ↔
      ∃ a, mv.answer? = some a ∧
      Event.answered j r a = Event.answered i r' a' := by
  simp only [events, marks, List.mem_append, Option.mem_toList,
    Option.map_eq_some_iff]
  constructor
  · rintro (⟨a, ha, heq⟩ | ⟨x, -, hx⟩ | ⟨x, -, hx⟩)
    · exact ⟨a, ha, heq⟩
    · cases hx
    · cases hx
  · rintro ⟨a, ha, heq⟩
    exact .inl ⟨a, ha, heq⟩

theorem answered_not_mem_marks {r' : Request} {a' : r'.Reply} :
    Event.answered i r' a' ∉ mv.marks j p c := by
  simp [marks]

/-- Nobody else is given an answer. -/
theorem answered_not_mem_events {r' : Request} {a' : r'.Reply} (hij : i ≠ j) :
    Event.answered i r' a' ∉ mv.events j p c := by
  intro hmem
  obtain ⟨a, -, heq⟩ := answered_mem_events.1 hmem
  cases heq
  exact hij rfl

end Move

/-! ### Waking for no reason -/

/-- A thread that wakes although nobody woke it, if it sleeps. -/
def Thread.stirred {α : Type} : Thread α → Thread α
  | .busy r (.parked s errand) next => .busy r (.enter s errand) next
  | t => t

theorem Thread.stirred_eq_roused {α : Type} (t : Thread α) :
    ∃ w, t.stirred = t.roused w := by
  cases t with
  | finished a => exact ⟨none, rfl⟩
  | busy r p next =>
    cases p with
    | parked s errand =>
      refine ⟨some s, ?_⟩
      simp [stirred, roused, woken, Point.woken]
    | _ => exact ⟨none, rfl⟩

namespace Machine

variable {α : Type}

/-- What is recorded of a step of a thread. -/
def events (m : Machine α) (i : Nat) : List Event :=
  match m.threads[i]? with
  | some (.busy _ p _) => (Move.next m.free p m.cache).events i p m.cache
  | _ => []

/-- Wakes a thread that nobody woke. -/
def stir (m : Machine α) (i : Nat) : Machine α :=
  { m with threads := m.threads.modify i Thread.stirred }

/-- About to begin: nothing is on the shelves, and the programs are honest with
nothing in hand. -/
structure Starts (conduct : Conduct) (m : Machine α) : Prop where
  shelves : m.cache.shelves = Table.empty
  log : m.cache.log = []
  threads : ∀ t ∈ m.threads, ∃ p : Program α, t = Thread.ofProgram p ∧
    p.Honest conduct {}
  conduct : ∀ t k, m.cache.kind? t = some k → conduct t k

/-- A machine may come, with a record, from `m₀`. -/
inductive Course (conduct : Conduct) (m₀ : Machine α) :
    List Event → Machine α → Prop where
  | refl : Course conduct m₀ [] m₀
  | step {es : List Event} {m m' : Machine α} {i : Nat}
      (h : Course conduct m₀ es m) (hs : m.step i = some m') :
      Course conduct m₀ (m.events i ++ es) m'
  | drift {es : List Event} {m : Machine α} {c : Cache}
      (h : Course conduct m₀ es m) (hc : m.cache.Drifts conduct c) :
      Course conduct m₀ es { m with cache := c }
  /-- Somebody who sleeps wakes for no reason. -/
  | stir {es : List Event} {m : Machine α} (h : Course conduct m₀ es m)
      (i : Nat) : Course conduct m₀ es (m.stir i)

variable {conduct : Conduct} {m₀ m m' : Machine α} {es es' : List Event}

/-- A step, with its move and what is recorded of it. -/
theorem step_cases {i : Nat} (h : m.step i = some m') :
    ∃ (r : Request) (p : Point r) (next : r.Reply → Program α) (mv : Move r),
      m.threads[i]? = some (.busy r p next) ∧ Moves m.free m.cache p mv ∧
      m.events i = mv.events i p m.cache ∧
      m' = ⟨mv.cacheAfter m.cache,
        (wake mv.woken? m.threads).set i (mv.thread p next)⟩ := by
  obtain ⟨r, p, next, mv, hi, hnext, hmv, rfl⟩ := step_eq_some h
  refine ⟨r, p, next, mv, hi, hmv, ?_, rfl⟩
  simp only [events, hi, hnext]

/-! ### Who has been stirred -/

theorem getElem?_stir {i j : Nat} {t : Thread α} (hj : m.threads[j]? = some t) :
    ∃ w, (m.stir i).threads[j]? = some (t.roused w) := by
  obtain ⟨w, hw⟩ := t.stirred_eq_roused
  by_cases hij : i = j
  · exact ⟨w, by simp [stir, hij, hj, hw]⟩
  · exact ⟨none, by simp [stir, hij, hj, Thread.roused]⟩

theorem exists_of_getElem?_stir {i j : Nat} {t : Thread α}
    (hj : (m.stir i).threads[j]? = some t) :
    ∃ t₀ w, m.threads[j]? = some t₀ ∧ t = t₀.roused w := by
  cases ht₀ : m.threads[j]? with
  | none => simp [stir, List.getElem?_modify, ht₀] at hj
  | some t₀ =>
    obtain ⟨w, hw⟩ := getElem?_stir (i := i) ht₀
    exact ⟨t₀, w, rfl, Option.some.inj (hj.symm.trans hw)⟩

theorem Sole.stir {f : Thread α → Option SlotId} (h : m.Sole f)
    (hw : ∀ t w, f (Thread.roused w t) = f t) (i : Nat) :
    (m.stir i).Sole f := by
  intro j k t t' s hj hk hs hs'
  obtain ⟨u, w, hu, rfl⟩ := exists_of_getElem?_stir hj
  obtain ⟨u', w', hu', rfl⟩ := exists_of_getElem?_stir hk
  rw [hw] at hs hs'
  exact h j k u u' s hu hu' hs hs'

/-! ### What is true of every thread -/

section

variable {P : Thread α → Prop}

/-- After a step: of the thread that moved, and of the others, woken or not. -/
theorem forall_mem_set_wake {ts : List (Thread α)} {i : Nat} {t' : Thread α}
    (hts : ∀ t ∈ ts, P t) (hw : ∀ t w, P t → P (Thread.roused w t)) (ht' : P t')
    (w : Option SlotId) : ∀ t ∈ (wake w ts).set i t', P t := by
  intro t ht
  obtain ⟨j, hj⟩ := List.getElem?_of_mem ht
  rcases getElem?_set_wake hj with ⟨-, rfl⟩ | ⟨-, t₀, ht₀, rfl⟩
  · exact ht'
  · exact hw t₀ w (hts t₀ (List.mem_of_getElem? ht₀))

theorem forall_mem_stir (hts : ∀ t ∈ m.threads, P t)
    (hw : ∀ t w, P t → P (Thread.roused w t)) (i : Nat) :
    ∀ t ∈ (m.stir i).threads, P t := by
  intro t ht
  obtain ⟨j, hj⟩ := List.getElem?_of_mem ht
  obtain ⟨t₀, w, ht₀, rfl⟩ := exists_of_getElem?_stir hj
  exact hw t₀ w (hts t₀ (List.mem_of_getElem? ht₀))

/-- Of who has moved: what holds where the move leads, and of a program about to
begin. -/
theorem of_moved {r : Request} {p : Point r} {next : r.Reply → Program α}
    {mv : Move r} (hmv : mv ≠ .blocked)
    (hgo : ∀ q, mv.point? = some q → P (.busy r q next))
    (hend : ∀ program, P (.ofProgram program)) : P (mv.thread p next) := by
  cases mv with
  | blocked => exact absurd rfl hmv
  | go q c => exact hgo q rfl
  | reply a w c => exact hend _

end

/-! ### The invariant along a course -/

theorem Starts.not_made (h : m.Starts conduct) (s : SlotId) :
    ¬ m.cache.Made s := by
  intro hs
  rw [Cache.Made, Cache.shelf, h.shelves] at hs
  exact absurd hs (Nat.not_lt_zero _)

theorem Starts.find?_eq_none (h : m.Starts conduct) (h' : Handle) :
    m.cache.find? h' = none := by
  rw [Cache.find?, Cache.shelf, h.shelves]
  rfl

theorem Starts.not_listed (h : m.Starts conduct) (s : SlotId) :
    ¬ m.cache.Listed s := by
  intro hs
  rw [Cache.Listed, h.find?_eq_none] at hs
  cases hs

/-- Nobody is amid a request yet. -/
theorem Starts.thread (h : m.Starts conduct) {i : Nat} {t : Thread α}
    (hi : m.threads[i]? = some t) :
    ∃ p : Program α, t = Thread.ofProgram p ∧ p.Honest conduct {} :=
  h.threads t (List.mem_of_getElem? hi)

theorem Starts.inv (h : m.Starts conduct) : m.Inv conduct := by
  refine ⟨⟨?_, ?_, h.conduct⟩, ?_, ?_, ?_, ?_⟩
  · intro s hs
    exact absurd hs (h.not_listed s)
  · intro s hs
    exact absurd hs (h.not_made s)
  · intro i t hi
    obtain ⟨p, rfl, hp⟩ := h.thread hi
    exact Thread.sound_ofProgram ⟨by simp, by simp⟩ hp
  · intro i j t t' s hi hj hs hs'
    obtain ⟨p, rfl, -⟩ := h.thread hi
    rw [Thread.slot?_ofProgram] at hs
    cases hs
  · intro i j t t' s hi hj hs hs'
    obtain ⟨p, rfl, -⟩ := h.thread hi
    rw [Thread.owner?_ofProgram] at hs
    cases hs
  · intro s hs
    rw [Cache.entry_of_not_made (h.not_made s)]
    exact Entry.settled_unmade (h.not_listed s)

theorem Inv.drift (h : m.Inv conduct) {c : Cache}
    (hc : m.cache.Drifts conduct c) : Inv conduct { m with cache := c } := by
  have hkeep : ∀ s, m.cache.Keeps c s := Cache.Keeps.of_shelves hc.shelves
  have hmade : ∀ s, c.Made s ↔ m.cache.Made s :=
    Cache.made_of_shelves hc.shelves
  have hext : m.cache.Extends c := ⟨fun s hs => (hmade s).2 hs, hc.knows⟩
  refine ⟨⟨?_, ?_, hc.conduct⟩, ?_, h.locks, h.owners, ?_⟩
  · intro s hs
    exact (hmade s).2 (h.orderly.made s ((hkeep s).listed.1 hs))
  · intro s hs
    exact (h.orderly.typed s ((hmade s).1 hs)).mono hc.knows
  · intro i t hi
    exact (h.sound i t hi).mono hext fun s _ _ => hkeep s
  · intro s hs
    show (c.entry s).Settled (c.Listed s)
    rw [(hkeep s).entry]
    exact (h.settled s hs).mono (hkeep s).listed.symm

theorem Inv.stir (h : m.Inv conduct) (i : Nat) : (m.stir i).Inv conduct := by
  refine ⟨h.orderly, ?_, h.locks.stir (fun _ w => Thread.slot?_roused w) i,
    h.owners.stir (fun _ w => Thread.owner?_roused w) i, ?_⟩
  · intro j t hj
    obtain ⟨t₀, w, ht₀, rfl⟩ := exists_of_getElem?_stir hj
    exact (h.sound j t₀ ht₀).roused w
  · intro s hf
    refine h.settled s (free_slot_iff.2 fun j t hj hs => ?_)
    obtain ⟨w, hw⟩ := getElem?_stir (i := i) hj
    exact free_slot_iff.1 hf j _ hw ((Thread.slot?_roused w).trans hs)

theorem Course.trans (h : Course conduct m₀ es m)
    (h' : Course conduct m es' m') : Course conduct m₀ (es' ++ es) m' := by
  induction h' with
  | refl => exact h
  | step h' hs ih =>
    rw [List.append_assoc]
    exact .step ih hs
  | drift h' hc ih => exact .drift ih hc
  | stir h' i ih => exact .stir ih i

/-- A course keeps the invariant. -/
theorem Course.keeps (h : Course conduct m es m') (hinv : m.Inv conduct) :
    m'.Inv conduct := by
  induction h with
  | refl => exact hinv
  | step h hs ih => exact ih.step hs
  | drift h hc ih => exact ih.drift hc
  | stir h i ih => exact ih.stir i

theorem Course.inv (h : Course conduct m₀ es m) (h₀ : m₀.Starts conduct) :
    m.Inv conduct :=
  h.keeps h₀.inv

/-! ### Schedules -/

/-- Steps of the threads that a schedule names, the latest first; none if one of
them cannot move. -/
def follow (m : Machine α) : List Nat → Option (List Event × Machine α)
  | [] => some ([], m)
  | i :: is => do
    let (es, m') ← m.follow is
    let m'' ← m'.step i
    return (m'.events i ++ es, m'')

theorem course_of_follow {is : List Nat} (h : m₀.follow is = some (es, m)) :
    Course conduct m₀ es m := by
  induction is generalizing es m with
  | nil =>
    cases h
    exact .refl
  | cons i is ih =>
    obtain ⟨⟨es', m'⟩, h', hstep⟩ := Option.bind_eq_some_iff.1 h
    obtain ⟨m'', hs, heq⟩ := Option.bind_eq_some_iff.1 hstep
    cases heq
    exact .step (ih h') hs

/-- A course that a schedule leads to, with what is true at its end. -/
theorem exists_course (conduct : Conduct) (m₀ : Machine α) (is : List Nat)
    {P : List Event → Machine α → Bool}
    (h : (m₀.follow is).any (fun x => P x.1 x.2) = true) :
    ∃ (es : List Event) (m : Machine α), Course conduct m₀ es m ∧
      P es m = true := by
  obtain ⟨⟨es, m⟩, hm, hP⟩ := (Option.any_eq_true _ _).1 h
  exact ⟨es, m, course_of_follow hm, hP⟩

/-- One more kind that acts as it may. -/
theorem acts_put {kinds : Table TypeId Kind} {t : TypeId} {k : Kind}
    (hkinds : ∀ t' k', kinds.get? t' = some k' → conduct t' k')
    (hk : conduct t k) :
    ∀ t' k', (kinds.put t k).get? t' = some k' → conduct t' k' := by
  intro t' k' hk'
  by_cases ht : t' = t
  · subst ht
    cases (Table.get?_put_self _ _ _).symm.trans hk'
    exact hk
  · exact hkinds t' k' ((Table.get?_put_of_ne _ ht _).symm.trans hk')

/-- Honest programs start well on an empty cache whose kinds act as they may. -/
theorem starts_of_kinds {kinds : Table TypeId Kind} {source : Source}
    {programs : List (Program α)}
    (hkinds : ∀ t k, kinds.get? t = some k → conduct t k)
    (hp : ∀ p ∈ programs, p.Honest conduct {}) : Starts conduct
      { cache := { kinds := kinds, source := source }
        threads := programs.map Thread.ofProgram } := by
  refine ⟨rfl, rfl, ?_, hkinds⟩
  intro th hth
  obtain ⟨p, hmem, rfl⟩ := List.mem_map.1 hth
  exact ⟨p, rfl, hp p hmem⟩

/-- The handle that callers call about. -/
def theirs : Handle := ⟨⟨1⟩, ⟨1⟩⟩

/-- Loads what is theirs. -/
def loader : Program (Except Failure Unit) :=
  Cache.load theirs.type [theirs.name]

/-- Drops a reference to what is theirs. -/
def dropper : Program (Except Failure Unit) :=
  (Cache.release theirs).orStop fun _ => pure (.ok ())

/-- Callers of a cache that knows one type, of the bytes as they are, and whose
source has what is theirs. -/
def callers (programs : List (Program α)) : Machine α where
  cache :=
    { kinds := Table.empty.put theirs.type (Kind.raw 3)
      source := .memory (Table.empty.put theirs [7]) }
  threads := programs.map Thread.ofProgram

/-- Every type acts as the bytes as they are. -/
def rawConduct : Conduct := fun _ k => k = Kind.raw 3

theorem starts_callers {programs : List (Program α)}
    (hp : ∀ p ∈ programs, p.Honest rawConduct {}) :
    (callers programs).Starts rawConduct :=
  starts_of_kinds (acts_put nofun rfl) hp

end Machine

end ResourceHost
