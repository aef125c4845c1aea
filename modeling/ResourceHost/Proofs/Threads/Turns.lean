import ResourceHost.Proofs.Threads.Stale
import ResourceHost.Proofs.Threads.Waiters

/-!
# The turns of a load

A thread that loads a handle goes in turns: it looks up the slot of the handle,
or makes one, and waits for what comes of it.  It goes round again only if the
slot of the turn was unloaded since it was looked up.  Such a slot has left the
table for good, so no slot is met twice, and every turn but the first is paid
for by an unload.
-/

namespace ResourceHost

/-! ### One move within a turn -/

/-- The slot that a request turns to as it begins: the one that the table lists,
or the one that it makes. -/
def Request.turnsTo? (c : Cache) : Request → Option SlotId
  | .acquire h _ => some ((c.find? h).getD (c.nextSlot h))
  | _ => none

/-- The slot that a thread turns to in its next step. -/
def Point.turnsTo? (c : Cache) {r : Request} : Point r → Option SlotId
  | .begun => r.turnsTo? c
  | _ => none

/-- Asks the registry about a slot. -/
def Point.Asks {r : Request} : Point r → Prop
  | .consult _ _ _ | .consulting _ _ _ => True
  | _ => False

/-- The moves of a thread that loads a handle. -/
inductive TurnMove (c : Cache) {h : Handle} {k : Kind} :
    Point (.acquire h k) → Move (.acquire h k) → Prop where
  | lock : TurnMove c .start (.go .begun c)
  /-- A turn begins. -/
  | look {q : Point (.acquire h k)} {c' : Cache} {s : SlotId}
      (ht : Point.turnsTo? c (r := .acquire h k) .begun = some s)
      (hf : c'.find? h = some s) (hq : q.inHand? = some s) :
      TurnMove c .begun (.go q c')
  /-- The slot of the turn stays in hand. -/
  | keep {p q : Point (.acquire h k)} {c' : Cache} {s : SlotId}
      (hp : p.inHand? = some s) (hq : q.inHand? = some s) :
      TurnMove c p (.go q c')
  /-- The slot of the turn is gone, and no failure tells why. -/
  | again {p : Point (.acquire h k)} {s : SlotId} (hp : p.inHand? = some s)
      (hl : ¬ c.Listed s) (hf : (c.entry s).failure = none) :
      TurnMove c p (.go .start c)
  | answer {p : Point (.acquire h k)} {s : SlotId} {a : Except Failure Unit}
      {w : Option SlotId} {c' : Cache} (hp : p.inHand? = some s) :
      TurnMove c p (.reply a w c')

namespace Moves

variable {conduct : Conduct} {free : Free} {c : Cache} {h : Handle} {k : Kind}
  {p q : Point (.acquire h k)} {mv : Move (.acquire h k)}

/-- To let a slot go ends the turn with an answer, or wakes the others first. -/
theorem turnMove_leave {hold : Hold (.acquire h k)}
    (hp : p.inHand? = some hold.slot) (c' : Cache) :
    TurnMove c p (.leave hold c') := by
  unfold Move.leave
  dsimp only
  split
  · exact .keep hp rfl
  · exact .answer hp

/-- A load asks the registry for nothing once it has begun. -/
theorem not_asks (hmv : Moves free c p mv) (hp : ¬ p.Asks)
    (hq : mv.point? = some q) : ¬ q.Asks := by
  cases hmv with
  | ask hf => exact absurd trivial hp
  | @hold _ s errand hf hc => cases errand <;> cases hc
  | leave hev =>
    rw [point?_leave _ _ _ hq]
    exact id
  | evict =>
    rw [point?_leave _ _ _ hq]
    exact id
  | answer ho hr => cases hr
  | told => exact absurd trivial hp
  | toldAndWork hs => exact absurd trivial hp
  | toldAndStart hs => exact absurd trivial hp
  | rouse => cases hq
  | _ =>
    cases hq
    exact id

theorem turnMove (hmv : Moves free c p mv)
    (hfree : ∀ s, free.slot s = true → (c.entry s).Settled (c.Listed s))
    (hp : p.Sound conduct c) (hask : ¬ p.Asks) : TurnMove c p mv := by
  cases hmv with
  | turn hl hf => exact .lock
  | answer ho hr => cases hr
  | join ho hf =>
    obtain rfl := begun_of_opening ho (l := .table) rfl
    exact .look (congrArg (fun o => some (Option.getD o _)) hf) hf rfl
  | load ho hf =>
    obtain rfl := begun_of_opening ho (l := .table) rfl
    exact .look (congrArg (fun o => some (Option.getD o _)) hf)
      (c.listed_openSlot_nextSlot h) rfl
  | @restart _ s errand hf hw hc hsec =>
    cases errand with
    | settle outcome => cases hsec
    | join =>
      cases (Moves.restart hf hw hc hsec).joinMove hfree hp (s := s) rfl with
      | restart hl hnone => exact .again rfl hl hnone
  | @hold _ s errand hf hc => cases errand <;> cases hc
  | leave hev => exact turnMove_leave rfl _
  | evict => exact turnMove_leave rfl _
  | rouse => exact .answer rfl
  | ask hf => exact absurd trivial hask
  | told => exact absurd trivial hask
  | toldAndWork hs => exact absurd trivial hask
  | toldAndStart hs => exact absurd trivial hask
  | _ => exact .keep rfl rfl

end Moves

/-! ### The slots of a handle that something was done to -/

namespace Deed

variable {d : Deed} {h : Handle} {s : SlotId} {es : List Event}

/-- The slots of a handle that a deed was done to, the latest first. -/
def slotsOf (d : Deed) (h : Handle) (es : List Event) : List SlotId :=
  es.filterMap fun
    | .did _ s d' => if s.handle = h ∧ d' = d then some s else none
    | _ => none

theorem length_slotsOf (d : Deed) (h : Handle) (es : List Event) :
    (d.slotsOf h es).length = d.count h es := by
  induction es with
  | nil => rfl
  | cons e es ih =>
    cases e with
    | did i s d' =>
      by_cases hs : s.handle = h ∧ d' = d <;> simp_all [slotsOf, count]
    | befell x => exact ih
    | answered i r a => exact ih

theorem exists_did_of_mem_deedsOn (hd : d ∈ Event.deedsOn s es) :
    ∃ j, .did j s d ∈ es := by
  obtain ⟨e, he, hs⟩ := List.mem_filterMap.1 hd
  cases e with
  | did j s' d' =>
    dsimp only at hs
    split at hs
    · cases hs
      rename_i heq
      exact ⟨j, heq ▸ he⟩
    · cases hs
  | befell x => cases hs
  | answered i r a => cases hs

theorem mem_slotsOf (hd : d ∈ Event.deedsOn s es) :
    s ∈ d.slotsOf s.handle es := by
  obtain ⟨j, hj⟩ := exists_did_of_mem_deedsOn hd
  exact List.mem_filterMap.2 ⟨_, hj, if_pos ⟨rfl, rfl⟩⟩

/-- Slots that a deed was done to, each listed once, are no more than such
deeds. -/
theorem length_le_count {ss : List SlotId} (hn : ss.Nodup)
    (hs : ∀ s ∈ ss, s.handle = h ∧ d ∈ Event.deedsOn s es) :
    ss.length ≤ d.count h es := by
  rw [← length_slotsOf]
  refine hn.length_le_of_subset fun s hmem => ?_
  obtain ⟨rfl, hd⟩ := hs s hmem
  exact mem_slotsOf hd

end Deed

/-- Whether a thread is given no answer. -/
def Event.unanswered (i : Nat) (es : List Event) : Bool :=
  es.all fun
    | .answered j _ _ => j != i
    | _ => true

theorem Event.not_mem_of_unanswered {i : Nat} {es : List Event}
    (h : unanswered i es = true) (r : Request) (a : r.Reply) :
    answered i r a ∉ es := by
  intro hmem
  simpa using List.all_eq_true.1 h _ hmem

/-! ### Along a course -/

namespace Machine

variable {α : Type} {conduct : Conduct} {m₀ m m' m'' : Machine α}
  {es₀ es : List Event} {ss : List SlotId} {i j : Nat} {h : Handle} {k : Kind}
  {p : Point (.acquire h k)} {next : Except Failure Unit → Program α}
  {s : SlotId}

/-- The slot that a thread turns to in its next step, if it moves. -/
def turnsTo? (m : Machine α) (i : Nat) : Option SlotId :=
  match m.threads[i]? with
  | some (.busy _ p _) => p.turnsTo? m.cache
  | _ => none

/-- A course along which the slots are noted that one thread turns to, the
latest first. -/
inductive Turns (conduct : Conduct) (m₀ : Machine α) (i : Nat) :
    List SlotId → List Event → Machine α → Prop where
  | refl : Turns conduct m₀ i [] [] m₀
  | step {ss : List SlotId} {es : List Event} {m m' : Machine α} {j : Nat}
      (h : Turns conduct m₀ i ss es m) (hs : m.step j = some m') :
      Turns conduct m₀ i ((if j = i then m.turnsTo? i else none).toList ++ ss)
        (m.events j ++ es) m'
  | drift {ss : List SlotId} {es : List Event} {m : Machine α} {c : Cache}
      (h : Turns conduct m₀ i ss es m) (hc : m.cache.Drifts conduct c) :
      Turns conduct m₀ i ss es { m with cache := c }
  | stir {ss : List SlotId} {es : List Event} {m : Machine α}
      (h : Turns conduct m₀ i ss es m) (j : Nat) :
      Turns conduct m₀ i ss es (m.stir j)

theorem Turns.course (h : Turns conduct m₀ i ss es m) :
    Course conduct m₀ es m := by
  induction h with
  | refl => exact .refl
  | step h hs ih => exact .step ih hs
  | drift h hc ih => exact .drift ih hc
  | stir h j ih => exact .stir ih j

/-- In every course the slots can be noted. -/
theorem Course.exists_turns (h : Course conduct m₀ es m) (i : Nat) :
    ∃ ss, Turns conduct m₀ i ss es m := by
  induction h with
  | refl => exact ⟨[], .refl⟩
  | step h hs ih =>
    obtain ⟨ss, ht⟩ := ih
    exact ⟨_, .step ht hs⟩
  | drift h hc ih =>
    obtain ⟨ss, ht⟩ := ih
    exact ⟨ss, .drift ht hc⟩
  | stir h j ih =>
    obtain ⟨ss, ht⟩ := ih
    exact ⟨ss, .stir ht j⟩

/-- A slot that was unloaded in the course of a call, and so has left the
table. -/
structure Spent (m : Machine α) (es : List Event) (h : Handle) (s : SlotId) :
    Prop where
  handle : s.handle = h
  made : m.cache.Made s
  gone : ¬ m.cache.Listed s
  unloaded : .unloaded ∈ Event.deedsOn s es

theorem Spent.step (hsp : m.Spent es h s) (hs : m.step j = some m') :
    m'.Spent (m.events j ++ es) h s := by
  obtain ⟨r, p, next, mv, hi, hmv, hev, rfl⟩ := step_cases hs
  refine ⟨hsp.handle, hmv.effect.made hsp.made,
    hmv.effect.not_listed hsp.made hsp.gone, ?_⟩
  rw [Event.deedsOn_append]
  exact List.mem_append_right _ hsp.unloaded

/-- A thread is in a turn of its call: it has the slot of the turn in hand,
unless it is about to look one up, and the slots of the turns before are
spent. -/
structure InTurn (m : Machine α) (es₀ es : List Event) (i : Nat)
    (ss : List SlotId) {h : Handle} {k : Kind} (p : Point (.acquire h k))
    (next : Except Failure Unit → Program α) : Prop where
  thread : m.threads[i]? = some (.busy (.acquire h k) p next)
  quiet : ¬ p.Asks
  nodup : ss.Nodup
  spent : ∃ earlier, ss = p.inHand?.toList ++ earlier ∧
    ∀ s ∈ earlier, m.Spent es h s
  hand : ∀ s, p.inHand? = some s → s.handle = h ∧ m.cache.Made s ∧
    .unloaded ∉ Event.deedsOn s es₀

/-- Where the thread is about to begin its call, it has no turn behind it. -/
theorem inTurn_of_start
    (hi : m.threads[i]? = some (.busy (.acquire h k) .start next)) :
    m.InTurn es₀ [] i [] (.start : Point (.acquire h k)) next :=
  { thread := hi, quiet := id, nodup := .nil, spent := ⟨[], rfl, nofun⟩,
    hand := nofun }

theorem turnsTo?_of_thread
    (hi : m.threads[i]? = some (.busy (.acquire h k) p next)) :
    m.turnsTo? i = p.turnsTo? m.cache := by
  rw [turnsTo?, hi]

theorem turnsTo?_of_inHand?
    (hi : m.threads[i]? = some (.busy (.acquire h k) p next))
    (hp : p.inHand? = some s) : m.turnsTo? i = none := by
  rw [turnsTo?_of_thread hi]
  cases p <;> first | rfl | cases hp

theorem InTurn.step_cases (hin : m.InTurn es₀ es i ss p next)
    (hinv : m.Inv conduct) (hs : m.step i = some m') :
    ∃ mv : Move (.acquire h k), TurnMove m.cache p mv ∧
      (∀ q, mv.point? = some q → ¬ q.Asks) ∧
      m.events i = mv.events i p m.cache ∧
      m'.cache = mv.cacheAfter m.cache ∧
      m'.threads[i]? = some (mv.thread p next) := by
  obtain ⟨r, p', next', mv, hi, hmv, hev, rfl⟩ := Machine.step_cases hs
  cases hi.symm.trans hin.thread
  exact ⟨mv, hmv.turnMove hinv.settled (hinv.sound i _ hi).1 hin.quiet,
    fun q => hmv.not_asks hin.quiet, hev, rfl, getElem?_set_wake_self hi⟩

/-- A step of the thread itself, short of its answer. -/
theorem InTurn.own_step (hin : m.InTurn es₀ es i ss p next)
    (h₀ : m₀.Starts conduct) (hr : Course conduct m₀ (es ++ es₀) m)
    (hs : m.step i = some m') (hno : ∀ r a, Event.answered i r a ∉ m.events i) :
    ∃ q : Point (.acquire h k),
      m'.InTurn es₀ (m.events i ++ es) i ((m.turnsTo? i).toList ++ ss) q
        next := by
  obtain ⟨mv, hmv, hask, hev, hcache, hthread⟩ := hin.step_cases (hr.inv h₀) hs
  obtain ⟨earlier, rfl, hspent⟩ := hin.spent
  have hspent' : ∀ s ∈ earlier, m'.Spent (m.events i ++ es) h s :=
    fun s hmem => (hspent s hmem).step hs
  cases hmv with
  | lock =>
    rw [turnsTo?_of_thread hin.thread]
    exact ⟨.begun, hthread, hask _ rfl, hin.nodup,
      ⟨earlier, rfl, hspent'⟩, nofun⟩
  | @look q c' s ht hf hq =>
    -- The slot is listed now, as none is any more that is spent; nor was it
    -- ever unloaded.
    rw [turnsTo?_of_thread hin.thread, ht]
    have hr' : Course conduct m₀ (m.events i ++ (es ++ es₀)) m' := .step hr hs
    have hfind : m'.cache.find? h = some s :=
      (congrArg (Cache.find? · h) hcache).trans hf
    obtain ⟨hhandle, hl⟩ := Cache.find?_eq_some_iff.1 hfind
    have hmade := (hr'.inv h₀).orderly.made s hl
    have hnew : s ∉ earlier := fun hmem => (hspent' s hmem).gone hl
    refine ⟨q, hthread, hask q rfl, List.nodup_cons.2 ⟨hnew, hin.nodup⟩,
      ⟨earlier, by rw [hq]; rfl, hspent'⟩, fun s' hs' => ?_⟩
    cases hq.symm.trans hs'
    refine ⟨hhandle, hmade,
      fun hmem => ((hr'.fate h₀ s).of_listed hmade hl).2.2 ?_⟩
    rw [Event.deedsOn_append, Event.deedsOn_append]
    exact List.mem_append_right _ (List.mem_append_right _ hmem)
  | @keep _ q c' s hp hq =>
    rw [turnsTo?_of_inHand? hin.thread hp]
    refine ⟨q, hthread, hask q rfl, hin.nodup,
      ⟨earlier, by rw [hp, hq]; rfl, hspent'⟩, fun s' hs' => ?_⟩
    obtain ⟨hhandle, hmade, hbefore⟩ :=
      hin.hand s' (hp.trans (hq.symm.trans hs'))
    exact ⟨hhandle, (Course.step .refl hs : Course conduct m _ m').made hmade,
      hbefore⟩
  | @again _ s hp hl hf =>
    rw [turnsTo?_of_inHand? hin.thread hp]
    obtain ⟨hhandle, hmade, hbefore⟩ := hin.hand s hp
    have hunloaded : .unloaded ∈ Event.deedsOn s es := by
      rcases (hr.fate h₀ s).of_not_listed hmade hl with
        ⟨f, hf', -⟩ | ⟨-, hunl, -⟩
      · cases hf.symm.trans hf'
      · rw [Event.deedsOn_append] at hunl
        exact (List.mem_append.1 hunl).resolve_right hbefore
    have hspent_s : m'.Spent (m.events i ++ es) h s :=
      Spent.step ⟨hhandle, hmade, hl, hunloaded⟩ hs
    refine ⟨.start, hthread, hask _ rfl, hin.nodup,
      ⟨s :: earlier, by rw [hp]; rfl, ?_⟩, nofun⟩
    exact List.forall_mem_cons.2 ⟨hspent_s, hspent'⟩
  | @answer _ _ a _ _ hp =>
    refine absurd ?_ (hno (.acquire h k) a)
    rw [hev]
    exact Move.answered_mem_events.2 ⟨_, rfl, rfl⟩

/-- What wakes a thread changes nothing about its turn. -/
theorem exists_point_of_roused (w : Option SlotId) (p : Point (.acquire h k))
    (next : Except Failure Unit → Program α) :
    ∃ q : Point (.acquire h k),
      Thread.roused w (.busy _ p next) = .busy _ q next ∧
      q.inHand? = p.inHand? ∧ (q.Asks → p.Asks) := by
  rcases Thread.roused_busy w p next with heq | ⟨s, errand, rfl, heq⟩
  · exact ⟨p, heq, rfl, id⟩
  · exact ⟨_, heq, rfl, id⟩

theorem InTurn.roused (hin : m.InTurn es₀ es i ss p next) {w : Option SlotId}
    (hi : m'.threads[i]? = some (Thread.roused w (.busy _ p next)))
    (hmade : ∀ s, m.cache.Made s → m'.cache.Made s) {es' : List Event}
    (hspent : ∀ s, m.Spent es h s → m'.Spent es' h s) :
    ∃ q : Point (.acquire h k), m'.InTurn es₀ es' i ss q next := by
  obtain ⟨q, heq, hq, hask⟩ := exists_point_of_roused w p next
  obtain ⟨earlier, hss, hall⟩ := hin.spent
  refine ⟨q, heq ▸ hi, fun ha => hin.quiet (hask ha), hin.nodup,
    ⟨earlier, hq ▸ hss, fun s hmem => hspent s (hall s hmem)⟩, fun s hs => ?_⟩
  obtain ⟨hhandle, hm, hbefore⟩ := hin.hand s (hq ▸ hs)
  exact ⟨hhandle, hmade s hm, hbefore⟩

/-- A step of another thread. -/
theorem InTurn.other_step (hin : m.InTurn es₀ es i ss p next) (hij : i ≠ j)
    (hs : m.step j = some m') :
    ∃ q : Point (.acquire h k),
      m'.InTurn es₀ (m.events j ++ es) i ss q next := by
  have hmade : ∀ s, m.cache.Made s → m'.cache.Made s := fun s hm =>
    (Course.step .refl hs : Course (fun _ _ => True) m _ m').made hm
  have hspent : ∀ s, m.Spent es h s → m'.Spent (m.events j ++ es) h s :=
    fun _ hsp => hsp.step hs
  obtain ⟨r, p', next', mv, hj, -, -, rfl⟩ := Machine.step_cases hs
  exact hin.roused (getElem?_set_wake_of_ne hij hin.thread) hmade hspent

/-- Until it is answered, the thread is in a turn. -/
theorem Turns.inTurn (ht : Turns conduct m i ss es m') (h₀ : m₀.Starts conduct)
    (hr₀ : Course conduct m₀ es₀ m)
    (hi : m.threads[i]? = some (.busy (.acquire h k) .start next))
    (hno : ∀ r a, Event.answered i r a ∉ es) :
    ∃ p : Point (.acquire h k), m'.InTurn es₀ es i ss p next := by
  induction ht with
  | refl => exact ⟨.start, inTurn_of_start hi⟩
  | @step ss es m' m'' j ht hs ih =>
    obtain ⟨p, hin⟩ := ih fun r a hmem => hno r a (List.mem_append_right _ hmem)
    by_cases hij : j = i
    · subst hij
      rw [if_pos rfl]
      exact hin.own_step h₀ (hr₀.trans ht.course) hs
        fun r a hmem => hno r a (List.mem_append_left _ hmem)
    · rw [if_neg hij]
      exact hin.other_step (Ne.symm hij) hs
  | @drift ss es m' c ht hc ih =>
    obtain ⟨p, hin⟩ := ih hno
    have hmade := Cache.made_of_shelves hc.shelves
    have hi' : (⟨c, m'.threads⟩ : Machine α).threads[i]? =
        some (Thread.roused none (.busy _ p next)) := hin.thread
    refine hin.roused hi' (fun s => (hmade s).2) fun s hsp => ?_
    exact ⟨hsp.handle, (hmade s).2 hsp.made,
      fun hl => hsp.gone ((Cache.Keeps.of_shelves hc.shelves s).listed.1 hl),
      hsp.unloaded⟩
  | @stir ss es m' ht j ih =>
    obtain ⟨p, hin⟩ := ih hno
    obtain ⟨w, hw⟩ := getElem?_stir (i := j) hin.thread
    exact hin.roused hw (fun _ => id) fun s hsp =>
      ⟨hsp.handle, hsp.made, hsp.gone, hsp.unloaded⟩

/-! ### Why a thread goes round again -/

/-- What a thread turns to is listed when it has. -/
theorem Inv.find?_of_turnsTo? (hinv : m.Inv conduct)
    (ht : m.turnsTo? i = some s) (hs : m.step i = some m') :
    m'.cache.find? s.handle = some s := by
  obtain ⟨r, p, next, mv, hi, hmv, -, rfl⟩ := Machine.step_cases hs
  simp only [turnsTo?, hi] at ht
  cases p with
  | begun =>
    cases r with
    | acquire h k =>
      have hsound : Point.Sound conduct m.cache
          (.begun : Point (.acquire h k)) := trivial
      cases hmv.turnMove hinv.settled hsound id with
      | look ht' hf hq =>
        cases ht'.symm.trans ht
        obtain rfl := (Cache.find?_eq_some_iff.1 hf).1
        exact hf
      | keep hp => cases hp
      | again hp => cases hp
      | answer hp => cases hp
    | _ => cases ht
  | _ => cases ht

/-- The latest turn of a thread, and what came before and behind its look. -/
theorem Turns.latest {earlier : List SlotId}
    (ht : Turns conduct m i (s :: earlier) es m') :
    ∃ (es₁ es₂ : List Event) (m₁ m₂ : Machine α),
      es = es₂ ++ (m₁.events i ++ es₁) ∧
      Turns conduct m i earlier es₁ m₁ ∧ m₁.turnsTo? i = some s ∧
      m₁.step i = some m₂ ∧
      Course conduct m₂ es₂ m' := by
  generalize hss : s :: earlier = ss at ht
  induction ht with
  | refl => cases hss
  | @step ss es m' m'' j ht hs ih =>
    cases hturn : (if j = i then m'.turnsTo? i else none) with
    | some s' =>
      rw [hturn] at hss
      cases hss
      split at hturn
      · rename_i hij
        subst hij
        exact ⟨es, [], m', m'', rfl, ht, hturn, hs, .refl⟩
      · cases hturn
    | none =>
      rw [hturn] at hss
      obtain ⟨es₁, es₂, m₁, m₂, rfl, hbefore, hlook, hstep, hr⟩ := ih hss
      exact ⟨es₁, _, m₁, m₂, (List.append_assoc _ _ _).symm, hbefore, hlook,
        hstep, .step hr hs⟩
  | drift ht hc ih =>
    obtain ⟨es₁, es₂, m₁, m₂, heq, hbefore, hlook, hstep, hr⟩ := ih hss
    exact ⟨es₁, es₂, m₁, m₂, heq, hbefore, hlook, hstep, .drift hr hc⟩
  | stir ht j ih =>
    obtain ⟨es₁, es₂, m₁, m₂, heq, hbefore, hlook, hstep, hr⟩ := ih hss
    exact ⟨es₁, es₂, m₁, m₂, heq, hbefore, hlook, hstep, .stir hr j⟩

/-- Somebody has unloaded the slot of the latest turn of a thread after the
thread looked it up, and it has left the table. -/
def UnloadedSince (conduct : Conduct) (m m' : Machine α) (es : List Event)
    (i : Nat) (s : SlotId) (earlier : List SlotId) : Prop :=
  ∃ (es₁ es₂ : List Event) (m₁ m₂ : Machine α),
    es = es₂ ++ (m₁.events i ++ es₁) ∧
    Turns conduct m i earlier es₁ m₁ ∧ m₁.turnsTo? i = some s ∧
    m₁.step i = some m₂ ∧
    m₂.cache.find? s.handle = some s ∧ Course conduct m₂ es₂ m' ∧
    (∃ j, Event.did j s .unloaded ∈ es₂) ∧ ¬ m'.cache.Listed s

theorem Turns.unloadedSince {earlier : List SlotId}
    (ht : Turns conduct m i (s :: earlier) es m') (h₀ : m₀.Starts conduct)
    (hr₀ : Course conduct m₀ es₀ m) (hsp : m'.Spent es h s) :
    UnloadedSince conduct m m' es i s earlier := by
  obtain ⟨es₁, es₂, m₁, m₂, rfl, hbefore, hlook, hstep, hr⟩ := ht.latest
  have hr₁ := hr₀.trans hbefore.course
  have hr₂ : Course conduct m₀ (m₁.events i ++ (es₁ ++ es₀)) m₂ :=
    .step hr₁ hstep
  have hfind := (hr₁.inv h₀).find?_of_turnsTo? hlook hstep
  -- When the thread had looked it up the slot was listed, and had not been
  -- unloaded.
  have hl : m₂.cache.Listed s := (Cache.find?_eq_some_iff.1 hfind).2
  have hnot :=
    ((hr₂.fate h₀ s).of_listed ((hr₂.inv h₀).orderly.made s hl) hl).2.2
  have hunloaded := hsp.unloaded
  simp only [Event.deedsOn_append, List.mem_append] at hnot hunloaded
  have hsince : .unloaded ∈ Event.deedsOn s es₂ := by
    rcases hunloaded with h | h | h
    · exact h
    · exact absurd (.inl h) hnot
    · exact absurd (.inr (.inl h)) hnot
  exact ⟨es₁, es₂, m₁, m₂, rfl, hbefore, hlook, hstep, hfind, hr,
    Deed.exists_did_of_mem_deedsOn hsince, hsp.gone⟩

theorem InTurn.length_le (hin : m.InTurn es₀ es i ss p next) :
    ss.length ≤ p.inHand?.toList.length + Deed.unloaded.count h es := by
  obtain ⟨earlier, rfl, hspent⟩ := hin.spent
  have hn : earlier.Nodup := (List.nodup_append.1 hin.nodup).2.1
  have hle : earlier.length ≤ Deed.unloaded.count h es :=
    Deed.length_le_count hn fun s hs =>
      ⟨(hspent s hs).handle, (hspent s hs).unloaded⟩
  rw [List.length_append]
  exact Nat.add_le_add_left hle _

/-- A call is answered out of a turn, and begins none with it. -/
theorem InTurn.of_answer (hin : m.InTurn es₀ es i ss p next)
    (hinv : m.Inv conduct) (hs : m.step i = some m') {a : Except Failure Unit}
    (ha : Event.answered i (.acquire h k) a ∈ m.events i) :
    m.turnsTo? i = none ∧ 1 ≤ ss.length := by
  obtain ⟨mv, hmv, -, hev, -, -⟩ := hin.step_cases hinv hs
  obtain ⟨earlier, rfl, -⟩ := hin.spent
  obtain ⟨a', ha', -⟩ := Move.answered_mem_events.1 (hev ▸ ha)
  cases hmv with
  | answer hp =>
    refine ⟨turnsTo?_of_inHand? hin.thread hp, ?_⟩
    rw [hp]
    exact Nat.succ_le_succ (Nat.zero_le _)
  | _ => cases ha'

/-- A load makes progress, whatever other threads do.  Until it is answered it
meets no slot twice, and its turns are at most one more than the unloads of the
handle in the meantime.  It goes round again only if the slot of the turn was
unloaded after it was looked up; and when it is answered without such an unload,
that is in its first turn. -/
theorem turns (h₀ : m₀.Starts conduct) (hr₀ : Course conduct m₀ es₀ m)
    (hi : m.threads[i]? = some (.busy (.acquire h k) .start next)) :
    (∀ es m', Course conduct m es m' → ∃ ss, Turns conduct m i ss es m') ∧
    ∀ ss es m', Turns conduct m i ss es m' →
      (∀ r a, Event.answered i r a ∉ es) →
      ss.Nodup ∧ ss.length ≤ 1 + Deed.unloaded.count h es ∧
      (∀ s earlier, ss = s :: earlier →
        m'.threads[i]? = some (.busy (.acquire h k) .start next) →
        UnloadedSince conduct m m' es i s earlier) ∧
      ∀ m'' a, m'.step i = some m'' →
          Event.answered i (.acquire h k) a ∈ m'.events i →
        m'.turnsTo? i = none ∧ 1 ≤ ss.length ∧
          (Deed.unloaded.count h es = 0 → ss.length = 1) := by
  refine ⟨fun es m' hr => hr.exists_turns i, fun ss es m' ht hno => ?_⟩
  obtain ⟨p, hin⟩ := ht.inTurn h₀ hr₀ hi hno
  have hle : ss.length ≤ 1 + Deed.unloaded.count h es :=
    Nat.le_trans hin.length_le (Nat.add_le_add_right Option.length_toList_le _)
  refine ⟨hin.nodup, hle, fun s earlier hss hstart => ?_, fun m'' a hs ha => ?_⟩
  · -- About to begin again, the thread has nothing in hand: every slot so far
    -- is spent.
    subst hss
    cases hin.thread.symm.trans hstart
    obtain ⟨spent, heq, hspent⟩ := hin.spent
    have hs : s ∈ spent := by
      rw [show spent = s :: earlier from heq.symm]
      exact List.mem_cons_self
    exact ht.unloadedSince h₀ hr₀ (hspent s hs)
  · have hinv : m'.Inv conduct := (hr₀.trans ht.course).inv h₀
    obtain ⟨hnone, hpos⟩ := hin.of_answer hinv hs ha
    exact ⟨hnone, hpos, fun hzero => by omega⟩

/-! ### Schedules with turns -/

/-- Steps of the threads that a schedule names, the latest first, with the slots
that one thread turns to. -/
def followTurns (m : Machine α) (i : Nat) :
    List Nat → Option (List SlotId × List Event × Machine α)
  | [] => some ([], [], m)
  | j :: js => do
    let (ss, es, m') ← m.followTurns i js
    let m'' ← m'.step j
    return ((if j = i then m'.turnsTo? i else none).toList ++ ss,
      m'.events j ++ es, m'')

theorem turns_of_followTurns {js : List Nat}
    (h : m.followTurns i js = some (ss, es, m')) :
    Turns conduct m i ss es m' := by
  induction js generalizing ss es m' with
  | nil =>
    cases h
    exact .refl
  | cons j js ih =>
    obtain ⟨⟨ss', es', m₁⟩, h', hstep⟩ := Option.bind_eq_some_iff.1 h
    obtain ⟨m₂, hs, heq⟩ := Option.bind_eq_some_iff.1 hstep
    cases heq
    exact .step (ih h') hs

/-- A load that finds a slot which is unloaded before it is locked goes round
once more: it makes a slot of its own, and two turns are as many as one unload
allows. -/
theorem turns_of_evicted :
    (callers [loader, evicter, loader]).Starts rawConduct ∧
      ∃ (es₀ es es' : List Event) (m m' m'' m₃ : Machine (Except Failure Unit))
        (next : Except Failure Unit → Program (Except Failure Unit)),
        Course rawConduct (callers [loader, evicter, loader]) es₀ m ∧
          m.threads[2]? =
            some (.busy (.acquire theirs (Kind.raw 3)) .start next) ∧
          m'.threads[2]? =
            some (.busy (.acquire theirs (Kind.raw 3)) .start next) ∧
          UnloadedSince rawConduct m m' es 2 ⟨theirs, 0⟩ [] ∧
          Turns rawConduct m 2 [⟨theirs, 1⟩, ⟨theirs, 0⟩] es' m'' ∧
          [⟨theirs, 1⟩, (⟨theirs, 0⟩ : SlotId)].length ≤
            1 + Deed.unloaded.count theirs es' ∧
          m''.step 2 = some m₃ ∧ m''.turnsTo? 2 = none := by
  have h₀ : (callers [loader, evicter, loader]).Starts rawConduct := by
    refine starts_callers fun p hp => ?_
    have hcases : p = loader ∨ p = evicter ∨ p = loader := by simpa using hp
    rcases hcases with rfl | rfl | rfl
    · exact Cache.load_honest _ _
    · exact Cache.unload_honest _
    · exact Cache.load_honest _ _
  obtain ⟨es₀, es, es', m, m', m'', m₃, next, hf, hf', hf'', hi, hi', hno, hno',
        hs, ha⟩ :
      ∃ es₀ es es' m m' m'' m₃ next,
        (callers [loader, evicter, loader]).follow
              (List.replicate 2 2 ++ List.replicate 11 0) =
            some (es₀, m) ∧
          m.followTurns 2 (2 :: (List.replicate 13 1 ++ List.replicate 2 2)) =
            some ([⟨theirs, 0⟩], es, m') ∧
          m.followTurns 2
              (List.replicate 9 2 ++
                (List.replicate 13 1 ++ List.replicate 2 2)) =
            some ([⟨theirs, 1⟩, ⟨theirs, 0⟩], es', m'') ∧
          m.threads[2]? =
            some (.busy (.acquire theirs (Kind.raw 3)) .start next) ∧
          m'.threads[2]? =
            some (.busy (.acquire theirs (Kind.raw 3)) .start next) ∧
          Event.unanswered 2 es = true ∧ Event.unanswered 2 es' = true ∧
          m''.step 2 = some m₃ ∧
          Event.answered 2 (.acquire theirs (Kind.raw 3))
              (.ok () : Except Failure Unit) ∈
            m''.events 2 :=
    ⟨_, _, _, _, _, _, _, _, rfl, rfl, rfl, rfl, rfl, rfl, rfl, rfl,
      List.mem_cons_self⟩
  have hr : Course rawConduct (callers [loader, evicter, loader]) es₀ m :=
    course_of_follow hf
  obtain ⟨-, hturns⟩ := turns h₀ hr hi
  have hsince := (hturns _ es m' (turns_of_followTurns hf')
    (Event.not_mem_of_unanswered hno)).2.2.1 _ _ rfl hi'
  obtain ⟨-, hle, -, hanswer⟩ := hturns _ es' m'' (turns_of_followTurns hf'')
    (Event.not_mem_of_unanswered hno')
  exact ⟨h₀, es₀, es, es', m, m', m'', m₃, next, hr, hi, hi', hsince,
    turns_of_followTurns hf'', hle, hs, (hanswer m₃ _ hs ha).1⟩

end Machine

end ResourceHost
