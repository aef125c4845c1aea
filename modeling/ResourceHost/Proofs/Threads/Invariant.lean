import ResourceHost.Proofs.Threads.Locks

/-!
# The invariant of a machine

No two threads hold the lock of one slot, and no two have made one slot and
still to fill it; every thread stands at a sound point; a slot that nobody has
locked is settled.  A step of any thread keeps all of this.
-/

namespace ResourceHost

/-! ### What a change of the cache leaves sound -/

theorem Hold.Since.mono {conduct : Conduct} {c c' : Cache} {r : Request}
    {hold : Hold r} {found : Entry} {calls : List Call}
    (h : hold.Since conduct c found calls) (he : c.Extends c')
    (hk : c.Keeps c' hold.slot) : hold.Since conduct c' found calls := by
  refine ⟨h.about, he.made _ h.made, h.settled.mono hk.listed.symm,
    h.briefed.mono he.knows, h.owns, h.does, h.rest, ?_⟩
  rw [hk.entry]
  exact h.stands

/-- A point stays sound while its thread's slots are left alone. -/
theorem Point.Sound.mono {conduct : Conduct} {c c' : Cache} {r : Request}
    {p : Point r} (h : p.Sound conduct c) (he : c.Extends c')
    (hk : ∀ s, p.slot? = some s ∨ p.owner? = some s → c.Made s → c.Keeps c' s) :
    p.Sound conduct c' := by
  have hawaits : ∀ s, p.owner? = some s → c.Made s → c.Awaits s →
      c'.Awaits s := by
    intro s hs hmade hw
    have hkeep := hk s (.inr hs) hmade
    exact ⟨hkeep.listed.2 hw.listed, hkeep.entry.trans hw.fresh⟩
  have hsince : ∀ {hold : Hold r} {found calls}, p.slot? = some hold.slot →
      hold.Since conduct c found calls → hold.Since conduct c' found calls := by
    intro hold found calls hs hsince
    exact hsince.mono he (hk _ (.inl hs) hsince.made)
  have hsettled : ∀ s, p.slot? = some s → c.Made s →
      (c.entry s).Settled (c.Listed s) →
      (c'.entry s).Settled (c'.Listed s) := by
    intro s hs hmade hsettled
    have hkeep := hk s (.inl hs) hmade
    rw [hkeep.entry]
    exact hsettled.mono hkeep.listed.symm
  -- A point knows something of its own slot only, and this slot is kept.
  cases p with
  | start => trivial
  | begun => trivial
  | rouse s a => exact h
  | consult s errand locked =>
    obtain ⟨ha, hmade, ho, hlocked⟩ := h
    refine ⟨ha, he.made s hmade, ho, ?_⟩
    rintro rfl
    exact hsettled s rfl hmade (hlocked rfl)
  | consulting s errand locked =>
    obtain ⟨ha, hmade, ho, hlocked⟩ := h
    refine ⟨ha, he.made s hmade, ho, ?_⟩
    rintro rfl
    exact hsettled s rfl hmade (hlocked rfl)
  | fetch s =>
    obtain ⟨ha, hmade, hw⟩ := h
    exact ⟨ha, he.made s hmade, hawaits s rfl hmade hw⟩
  | loading s bytes =>
    obtain ⟨ha, hmade, hw⟩ := h
    exact ⟨ha, he.made s hmade, hawaits s rfl hmade hw⟩
  | enter s errand =>
    obtain ⟨ha, hmade, hw, hb⟩ := h
    refine ⟨ha, he.made s hmade, ?_, fun hc => (hb hc).mono he.knows⟩
    intro ho
    exact hawaits s (by rw [Point.owner?, ho]; rfl) hmade (hw ho)
  | parked s errand =>
    obtain ⟨ha, hmade, ho, hb⟩ := h
    exact ⟨ha, he.made s hmade, ho, fun hc => (hb hc).mono he.knows⟩
  | inside hold calls =>
    obtain ⟨found, hs⟩ := h
    exact ⟨found, hsince rfl hs⟩
  | calling hold call rest =>
    obtain ⟨hmem, found, hs⟩ := h
    exact ⟨hmem, found, hsince rfl hs⟩
  | evict hold =>
    obtain ⟨hev, found, hs⟩ := h
    exact ⟨hev, found, hsince rfl hs⟩
  | evicting hold =>
    obtain ⟨hev, found, hs⟩ := h
    exact ⟨hev, found, hsince rfl hs⟩

theorem Point.owner?_eq_some {s s' : SlotId} {owns : Bool}
    (h : (if owns then some s' else none) = some s) : owns = true ∧ s' = s := by
  cases owns with
  | true => exact ⟨rfl, Option.some.inj h⟩
  | false => cases h

section

variable {conduct : Conduct} {c : Cache} {r : Request} {p : Point r}
  {s : SlotId}

/-- Whoever carries out a section knows what it found. -/
theorem Point.Sound.since (h : p.Sound conduct c) (hs : p.hold? = some s) :
    ∃ (hold : Hold r) (found : Entry) (calls : List Call), hold.slot = s ∧
      (p.owner? = if hold.errand.owns then some hold.slot else none) ∧
      hold.Since conduct c found calls := by
  cases p with
  | inside hold calls =>
    obtain ⟨found, hsince⟩ := h
    exact ⟨hold, found, calls, Option.some.inj hs, rfl, hsince⟩
  | calling hold call rest =>
    obtain ⟨-, found, hsince⟩ := h
    exact ⟨hold, found, rest, Option.some.inj hs, rfl, hsince⟩
  | evict hold =>
    obtain ⟨-, found, hsince⟩ := h
    exact ⟨hold, found, [], Option.some.inj hs, rfl, hsince⟩
  | evicting hold =>
    obtain ⟨-, found, hsince⟩ := h
    exact ⟨hold, found, [], Option.some.inj hs, rfl, hsince⟩
  | _ => cases hs

theorem Point.slot?_of_hold? (hs : p.hold? = some s) : p.slot? = some s := by
  cases p <;> first | exact hs | cases hs

theorem Point.made_of_slot? (h : p.Sound conduct c) (hs : p.slot? = some s) :
    c.Made s := by
  have hhold : p.hold? = some s → c.Made s := by
    intro hh
    obtain ⟨hold, found, calls, rfl, -, hsince⟩ := h.since hh
    exact hsince.made
  cases p with
  | consult s' errand locked =>
    cases locked with
    | true => cases hs; exact h.2.1
    | false => cases hs
  | consulting s' errand locked =>
    cases locked with
    | true => cases hs; exact h.2.1
    | false => cases hs
  | _ => exact hhold hs

/-- An owner carries out a section on its slot, or the slot still waits for
it. -/
theorem Point.hold?_or_awaits (h : p.Sound conduct c) (hs : p.owner? = some s) :
    p.hold? = some s ∨ c.Made s ∧ c.Awaits s := by
  cases p with
  | fetch s' =>
    cases hs
    exact .inr h.2
  | loading s' bytes =>
    cases hs
    exact .inr h.2
  | enter s' errand =>
    obtain ⟨ho, rfl⟩ := owner?_eq_some hs
    exact .inr ⟨h.2.1, h.2.2.1 ho⟩
  | consult s' errand locked =>
    obtain ⟨ho, rfl⟩ := owner?_eq_some hs
    exact absurd (h.2.2.1.symm.trans ho) (by decide)
  | consulting s' errand locked =>
    obtain ⟨ho, rfl⟩ := owner?_eq_some hs
    exact absurd (h.2.2.1.symm.trans ho) (by decide)
  | parked s' errand =>
    obtain ⟨ho, rfl⟩ := owner?_eq_some hs
    exact absurd (h.2.2.1.symm.trans ho) (by decide)
  | inside hold calls => exact .inl (congrArg some (owner?_eq_some hs).2)
  | calling hold call rest => exact .inl (congrArg some (owner?_eq_some hs).2)
  | evict hold => exact .inl (congrArg some (owner?_eq_some hs).2)
  | evicting hold => exact .inl (congrArg some (owner?_eq_some hs).2)
  | _ => cases hs

theorem Point.made_of_owner? (h : p.Sound conduct c) (hs : p.owner? = some s) :
    c.Made s := by
  rcases hold?_or_awaits h hs with hh | ⟨hm, -⟩
  · exact made_of_slot? h (slot?_of_hold? hh)
  · exact hm

end

/-! ### What is in hand after an answer -/

theorem Hand.Holds.mono {conduct : Conduct} {c c' : Cache} {hand : Hand}
    (h : hand.Holds conduct c) (he : c.Extends c') : hand.Holds conduct c' := by
  refine ⟨fun s hs => he.made s (h.slots s hs), fun t k hk => ?_⟩
  obtain ⟨hknows, hcond⟩ := h.kinds t k hk
  exact ⟨he.knows t k hknows, hcond⟩

theorem Cache.listed_of_mem_slots {c : Cache} {s : SlotId} (hs : s ∈ c.slots) :
    c.Listed s := by
  obtain ⟨h, -, hf⟩ := List.mem_filterMap.1 hs
  exact (Cache.find?_eq_some_iff.1 hf).2

/-- What a thread that runs a request in one go comes to hold is there. -/
theorem Hand.Holds.after_run {conduct : Conduct} {c : Cache} {r : Request}
    {hand : Hand} (h : hand.Holds conduct c) (hc : c.Orderly conduct) :
    (hand.after r (r.run c).1).Holds conduct c := by
  cases r with
  | slots =>
    refine ⟨fun s hs => ?_, h.kinds⟩
    rcases List.mem_append.1 hs with hs | hs
    · exact hc.made s (Cache.listed_of_mem_slots hs)
    · exact h.slots s hs
  | kind t =>
    show (hand.after (.kind t) (c.kind? t)).Holds conduct c
    cases hk : c.kind? t with
    | none => exact h
    | some k =>
      refine ⟨h.slots, fun t' k' hmem => ?_⟩
      rcases List.mem_cons.1 hmem with heq | hmem
      · cases heq
        exact ⟨Cache.knows_of_kind? hk, hc.conduct t k hk⟩
      · exact h.kinds t' k' hmem
  | _ => exact h

/-- An answer about a handle gives nothing in hand. -/
theorem Hand.after_of_handle? {r : Request} (hr : r.handle? ≠ none)
    (hand : Hand) (a : r.Reply) : hand.after r a = hand := by
  cases r <;> first | rfl | exact absurd rfl hr

/-- A request is answered as if run in one go, or is about a handle. -/
theorem Moves.answer?_eq_run {conduct : Conduct} {r : Request} {free : Free}
    {c : Cache} {p : Point r} {mv : Move r} {a : r.Reply}
    (h : Moves free c p mv) (hp : p.Sound conduct c)
    (ha : mv.answer? = some a) : a = (r.run c).1 ∨ r.handle? ≠ none := by
  cases h with
  | answer ho hr => exact .inl (Option.some.inj ha).symm
  | refuse ho hs => exact .inr (by simp [Request.handle?])
  | absent ho hs => exact .inr (by simp [Request.handle?])
  | leave hev =>
    obtain ⟨found, hsince⟩ := hp
    exact .inr (by rw [hsince.about]; simp)
  | evict =>
    obtain ⟨-, found, hsince⟩ := hp
    exact .inr (by rw [hsince.about]; simp)
  | rouse => exact .inr (by rw [show r.handle? = _ from hp]; simp)
  | _ => cases ha

theorem Moves.hand_after {conduct : Conduct} {r : Request} {free : Free}
    {c : Cache} {p : Point r} {mv : Move r} {a : r.Reply} {hand : Hand}
    (h : Moves free c p mv) (hp : p.Sound conduct c) (hc : c.Orderly conduct)
    (hh : hand.Holds conduct c) (hr : r.Honest conduct hand)
    (ha : mv.answer? = some a) :
    (hand.after r a).Holds conduct (mv.cacheAfter c) := by
  have hext := h.extends_cacheAfter hr
  rcases h.answer?_eq_run hp ha with rfl | hn
  · exact (hh.after_run hc).mono hext
  · rw [Hand.after_of_handle? hn]
    exact hh.mono hext

/-! ### Threads -/

namespace Thread

variable {α : Type}

/-- The slot that a thread made and has not filled yet. -/
def owner? : Thread α → Option SlotId
  | .finished _ => none
  | .busy _ p _ => p.owner?

/-- The slot that a thread carries out a section on. -/
def hold? : Thread α → Option SlotId
  | .finished _ => none
  | .busy _ p _ => p.hold?

theorem slot?_of_hold? {t : Thread α} {s : SlotId} (hs : t.hold? = some s) :
    t.slot? = some s := by
  cases t with
  | finished a => cases hs
  | busy r p next => exact Point.slot?_of_hold? hs

/-- Stands at a sound point, and goes on with an honest program. -/
def Sound (conduct : Conduct) (c : Cache) : Thread α → Prop
  | .finished _ => True
  | .busy r p next => p.Sound conduct c ∧
      ∃ hand : Hand, hand.Holds conduct c ∧
      (Program.ask r next).Honest conduct hand

/-- A thread as a move of another thread leaves it. -/
def roused (w : Option SlotId) (t : Thread α) : Thread α :=
  match w with
  | some s => t.woken s
  | none => t

theorem wake_eq_map (w : Option SlotId) (ts : List (Thread α)) :
    Machine.wake w ts = ts.map (roused w) := by
  cases w with
  | none => exact (List.map_id ts).symm
  | some s => rfl

/-- Waking only makes a thread that is asleep go on. -/
theorem roused_busy (w : Option SlotId) {r : Request} (p : Point r)
    (next : r.Reply → Program α) :
    roused w (.busy r p next) = .busy r p next ∨
      ∃ s errand, p = .parked s errand ∧
        roused w (.busy r p next) = .busy r (.enter s errand) next := by
  cases w with
  | none => exact .inl rfl
  | some s =>
    cases p with
    | parked s' errand =>
      by_cases hs : s' = s
      · refine .inr ⟨s', errand, rfl, ?_⟩
        simp [roused, woken, Point.woken, hs]
      · refine .inl ?_
        simp [roused, woken, Point.woken, hs]
    | _ => exact .inl rfl

variable {t : Thread α} (w : Option SlotId)

@[simp] theorem slot?_roused : (t.roused w).slot? = t.slot? := by
  cases t with
  | finished a => cases w <;> rfl
  | busy r p next =>
    rcases roused_busy w p next with h | ⟨s, errand, rfl, h⟩ <;> rw [h]
    rfl

@[simp] theorem owner?_roused : (t.roused w).owner? = t.owner? := by
  cases t with
  | finished a => cases w <;> rfl
  | busy r p next =>
    rcases roused_busy w p next with h | ⟨s, errand, rfl, h⟩ <;> rw [h]
    rfl

@[simp] theorem hold?_roused : (t.roused w).hold? = t.hold? := by
  cases t with
  | finished a => cases w <;> rfl
  | busy r p next =>
    rcases roused_busy w p next with h | ⟨s, errand, rfl, h⟩ <;> rw [h]
    rfl

theorem Sound.roused {conduct : Conduct} {c : Cache} (h : t.Sound conduct c) :
    (t.roused w).Sound conduct c := by
  cases t with
  | finished a => cases w <;> trivial
  | busy r p next =>
    rcases roused_busy w p next with heq | ⟨s, errand, rfl, heq⟩ <;> rw [heq]
    · exact h
    · obtain ⟨⟨ha, hm, ho, hb⟩, hhand⟩ := h
      exact ⟨⟨ha, hm, fun how => absurd (ho.symm.trans how) (by decide), hb⟩,
        hhand⟩

theorem Sound.mono {conduct : Conduct} {c c' : Cache} (h : t.Sound conduct c)
    (he : c.Extends c')
    (hk : ∀ s, t.slot? = some s ∨ t.owner? = some s → c.Made s → c.Keeps c' s) :
    t.Sound conduct c' := by
  cases t with
  | finished a => trivial
  | busy r p next =>
    obtain ⟨hp, hand, hh, hr⟩ := h
    exact ⟨hp.mono he hk, hand, hh.mono he, hr⟩

theorem sound_ofProgram {conduct : Conduct} {c : Cache} {p : Program α}
    {hand : Hand} (hh : hand.Holds conduct c) (hp : p.Honest conduct hand) :
    (ofProgram p).Sound conduct c := by
  cases p with
  | done a => trivial
  | ask r next => exact ⟨trivial, hand, hh, hp⟩

theorem slot?_ofProgram (p : Program α) : (ofProgram p).slot? = none := by
  cases p <;> rfl

theorem owner?_ofProgram (p : Program α) : (ofProgram p).owner? = none := by
  cases p <;> rfl

theorem hold?_ofProgram (p : Program α) : (ofProgram p).hold? = none := by
  cases p <;> rfl

end Thread

/-! ### What a thread that has moved has of the slots -/

namespace Move

variable {α : Type} {r : Request} {p q : Point r} {next : r.Reply → Program α}
  {mv : Move r} {s : SlotId}

theorem thread_of_point? (hq : mv.point? = some q) :
    mv.thread p next = .busy r q next := by
  cases mv <;> cases hq
  rfl

theorem slot?_thread (hmv : mv ≠ .blocked)
    (hs : (mv.thread p next).slot? = some s) :
    ∃ q, mv.point? = some q ∧ q.slot? = some s := by
  cases mv with
  | blocked => exact absurd rfl hmv
  | go q c => exact ⟨q, rfl, hs⟩
  | reply a w c =>
    rw [thread, Thread.slot?_ofProgram] at hs
    cases hs

theorem owner?_thread (hmv : mv ≠ .blocked)
    (hs : (mv.thread p next).owner? = some s) :
    ∃ q, mv.point? = some q ∧ q.owner? = some s := by
  cases mv with
  | blocked => exact absurd rfl hmv
  | go q c => exact ⟨q, rfl, hs⟩
  | reply a w c =>
    rw [thread, Thread.owner?_ofProgram] at hs
    cases hs

end Move

/-! ### Machines -/

namespace Machine

variable {α : Type} {conduct : Conduct} {m m' : Machine α}

/-- At most one thread has a slot in the way that `f` tells. -/
def Sole (f : Thread α → Option SlotId) (m : Machine α) : Prop :=
  ∀ (i j : Nat) (t t' : Thread α) (s : SlotId),
    m.threads[i]? = some t → m.threads[j]? = some t' →
    f t = some s → f t' = some s → i = j

/-- What holds of a machine at any time. -/
structure Inv (conduct : Conduct) (m : Machine α) : Prop where
  orderly : m.cache.Orderly conduct
  sound : ∀ (i : Nat) (t : Thread α), m.threads[i]? = some t →
    t.Sound conduct m.cache
  locks : m.Sole Thread.slot?
  owners : m.Sole Thread.owner?
  settled : ∀ s, m.free.slot s = true →
    (m.cache.entry s).Settled (m.cache.Listed s)

theorem free_slot_iff {s : SlotId} :
    m.free.slot s = true ↔
      ∀ (i : Nat) (t : Thread α), m.threads[i]? = some t →
      t.slot? ≠ some s := by
  constructor
  · intro h i t hi
    have hall := List.all_eq_true.1 h t (List.mem_of_getElem? hi)
    simpa using hall
  · intro h
    refine List.all_eq_true.2 fun t ht => ?_
    obtain ⟨i, hi⟩ := List.getElem?_of_mem ht
    simpa using h i t hi

/-- The threads after a step: the one that moved, and the others. -/
theorem getElem?_set_wake {ts : List (Thread α)} {i j : Nat} {w : Option SlotId}
    {t t' : Thread α} (h : ((wake w ts).set i t')[j]? = some t) :
    j = i ∧ t = t' ∨ j ≠ i ∧ ∃ t₀, ts[j]? = some t₀ ∧ t = t₀.roused w := by
  rw [Thread.wake_eq_map] at h
  by_cases hj : j = i
  · subst hj
    obtain ⟨hlt, heq⟩ := List.getElem?_eq_some_iff.1 h
    exact .inl ⟨rfl, by simpa using heq.symm⟩
  · rw [List.getElem?_set_ne (Ne.symm hj), List.getElem?_map,
      Option.map_eq_some_iff] at h
    obtain ⟨t₀, ht₀, rfl⟩ := h
    exact .inr ⟨hj, t₀, ht₀, rfl⟩

theorem getElem?_set_wake_self {ts : List (Thread α)} {i : Nat}
    {w : Option SlotId} {t t' : Thread α} (h : ts[i]? = some t) :
    ((wake w ts).set i t')[i]? = some t' := by
  have hlt : i < (wake w ts).length := by
    rw [Thread.wake_eq_map, List.length_map]
    exact (List.getElem?_eq_some_iff.1 h).1
  exact List.getElem?_set_self hlt

theorem getElem?_set_wake_of_ne {ts : List (Thread α)} {i j : Nat}
    {w : Option SlotId} {t t' : Thread α} (hij : j ≠ i) (h : ts[j]? = some t) :
    ((wake w ts).set i t')[j]? = some (t.roused w) := by
  rw [List.getElem?_set_ne (Ne.symm hij), Thread.wake_eq_map,
    List.getElem?_map, h]
  rfl

/-- What one thread has to itself it has to itself after a step, if the thread
that moves takes only what no other has. -/
theorem Sole.set_wake {f : Thread α → Option SlotId} (h : m.Sole f) {c : Cache}
    {i : Nat} {w : Option SlotId} {t₀ t' : Thread α}
    (hi : m.threads[i]? = some t₀) (hw : ∀ t, f (t.roused w) = f t)
    (ht : ∀ s, f t' = some s → f t₀ = some s ∨
      ∀ (j : Nat) (t : Thread α), m.threads[j]? = some t → f t ≠ some s) :
    Sole f ⟨c, (wake w m.threads).set i t'⟩ := by
  -- Between the thread that moved and another one.
  have hother : ∀ (j : Nat) (t : Thread α) (s : SlotId), j ≠ i →
      m.threads[j]? = some t →
      f t' = some s → f t ≠ some s := by
    intro j t s hj htj hs hts
    rcases ht s hs with h₀ | hnone
    · exact hj (h j i t t₀ s htj hi hts h₀)
    · exact hnone j t htj hts
  intro j k t t'' s hj hk hs hs'
  rcases getElem?_set_wake hj with ⟨rfl, rfl⟩ | ⟨hji, u, hu, rfl⟩
  · rcases getElem?_set_wake hk with ⟨rfl, rfl⟩ | ⟨hki, u', hu', rfl⟩
    · rfl
    · rw [hw] at hs'
      exact absurd hs' (hother k u' s hki hu' hs)
  · rcases getElem?_set_wake hk with ⟨rfl, rfl⟩ | ⟨hki, u', hu', rfl⟩
    · rw [hw] at hs
      exact absurd hs (hother j u s hji hu hs')
    · rw [hw] at hs hs'
      exact h j k u u' s hu hu' hs hs'

namespace Inv

/-- Nobody else touches the slots that a thread has locked or owns. -/
theorem keeps_other (h : m.Inv conduct) {i j : Nat} {r : Request} {p : Point r}
    {next : r.Reply → Program α} {mv : Move r} {t : Thread α} {s : SlotId}
    (hij : j ≠ i) (hi : m.threads[i]? = some (.busy r p next))
    (hj : m.threads[j]? = some t) (hmv : Moves m.free m.cache p mv)
    (hs : t.slot? = some s ∨ t.owner? = some s) (hmade : m.cache.Made s) :
    m.cache.Keeps (mv.cacheAfter m.cache) s := by
  have hlocked : t.slot? = some s →
      m.cache.Keeps (mv.cacheAfter m.cache) s := by
    intro hl
    refine hmv.effect.keeps hmade fun hh => ?_
    have hps : p.slot? = some s := Point.slot?_of_hold? hh
    exact hij (h.locks j i t _ s hj hi hl hps)
  rcases hs with hl | ho
  · exact hlocked hl
  · cases t with
    | finished a => cases ho
    | busy r' p' next' =>
      rcases Point.hold?_or_awaits (h.sound j _ hj).1 ho with hh | ⟨-, hw⟩
      · exact hlocked (Point.slot?_of_hold? hh)
      · refine hmv.effect.keeps_of_blank (h.sound i _ hi).1 hmade
          (.inl hw.fresh) fun hown => ?_
        exact hij (h.owners j i _ _ s hj hi ho hown)

/-- A thread knows what it knew while another moves. -/
theorem sound_other (h : m.Inv conduct) {i j : Nat} {r : Request} {p : Point r}
    {next : r.Reply → Program α} {mv : Move r} {t : Thread α} {hand : Hand}
    (hij : j ≠ i) (hi : m.threads[i]? = some (.busy r p next))
    (hj : m.threads[j]? = some t) (hmv : Moves m.free m.cache p mv)
    (hr : r.Honest conduct hand) : t.Sound conduct (mv.cacheAfter m.cache) :=
  (h.sound j t hj).mono (hmv.extends_cacheAfter hr) fun _ hs hmade =>
    h.keeps_other hij hi hj hmv hs hmade

/-- A slot that is free before a move and left alone stays settled. -/
theorem settled_other (h : m.Inv conduct) {r : Request} {p : Point r}
    {mv : Move r} {s : SlotId} (hmv : Moves m.free m.cache p mv)
    (hc : (mv.cacheAfter m.cache).Orderly conduct) (hp : p.slot? ≠ some s)
    (hs : m.free.slot s = true) :
    ((mv.cacheAfter m.cache).entry s).Settled
      ((mv.cacheAfter m.cache).Listed s) := by
  by_cases hmade : m.cache.Made s
  · have hk := hmv.effect.keeps hmade fun hh => hp (Point.slot?_of_hold? hh)
    rw [hk.entry]
    exact (h.settled s hs).mono hk.listed.symm
  · by_cases hmade' : (mv.cacheAfter m.cache).Made s
    · rcases hmv.effect.made_or_opened hmade' with hm | ⟨-, he, hl⟩
      · exact absurd hm hmade
      · exact .loading hl he
    · rw [Cache.entry_of_not_made hmade']
      exact Entry.settled_unmade fun hl => hmade' (hc.made s hl)

/-- The thread that moved stands at a sound point, or begins the next request
of an honest program. -/
theorem sound_self (h : m.Inv conduct) {r : Request} {p : Point r}
    {next : r.Reply → Program α} {mv : Move r} {hand : Hand}
    (hmv : Moves m.free m.cache p mv) (hp : p.Sound conduct m.cache)
    (hh : hand.Holds conduct m.cache)
    (hr : (Program.ask r next).Honest conduct hand) :
    (mv.thread p next).Sound conduct (mv.cacheAfter m.cache) := by
  have hext := hmv.extends_cacheAfter hr.1
  cases hmv' : mv with
  | blocked => exact absurd hmv' hmv.ne_blocked
  | go q c =>
    subst hmv'
    exact ⟨hmv.sound h.orderly h.settled hh hr.1 hp rfl, hand, hh.mono hext, hr⟩
  | reply a w c =>
    subst hmv'
    exact Thread.sound_ofProgram (hmv.hand_after hp h.orderly hh hr.1 rfl)
      (hr.2 a)

/-- A step keeps the invariant. -/
theorem step (h : m.Inv conduct) {i : Nat} (hs : m.step i = some m') :
    m'.Inv conduct := by
  obtain ⟨r, p, next, mv, hi, -, hmv, rfl⟩ := step_eq_some hs
  obtain ⟨hp, hand, hh, hr⟩ := h.sound i _ hi
  have horderly := hmv.orderly h.orderly hh hr.1
  refine ⟨horderly, ?_, ?_, ?_, ?_⟩
  -- Sound: the thread that moved by its move, the others because nothing of
  -- theirs changed.
  · intro j t hj
    rcases getElem?_set_wake hj with ⟨rfl, rfl⟩ | ⟨hij, t₀, ht₀, rfl⟩
    · exact h.sound_self hmv hp hh hr
    · exact (h.sound_other hij hi ht₀ hmv hr.1).roused _
  -- A lock that is new was free, and a slot that is newly owned was not there
  -- before.
  · refine h.locks.set_wake hi (fun _ => Thread.slot?_roused _) fun s hs => ?_
    obtain ⟨q, hq, hqs⟩ := Move.slot?_thread hmv.ne_blocked hs
    rcases hmv.slot?_of_point? hq hqs with hps | hfree
    · exact .inl hps
    · exact .inr (free_slot_iff.1 hfree)
  · refine h.owners.set_wake hi (fun _ => Thread.owner?_roused _) fun s hs => ?_
    obtain ⟨q, hq, hqs⟩ := Move.owner?_thread hmv.ne_blocked hs
    rcases hmv.owner?_of_point? hq hqs with hps | ⟨hnew, -⟩
    · exact .inl hps
    · refine .inr fun j t hj ho => hnew ?_
      cases t with
      | finished a => cases ho
      | busy r' p' next' => exact Point.made_of_owner? (h.sound j _ hj).1 ho
  -- A slot that is free now was let go by this move, or was free before it.
  · intro s hfree
    have hfree' := free_slot_iff.1 hfree
    have hself : (mv.thread p next).slot? ≠ some s := by
      exact hfree' i _ (getElem?_set_wake_self hi)
    by_cases hps : p.slot? = some s
    · refine hmv.settled_of_let_go hp hps fun q hq hqs => hself ?_
      rw [Move.thread_of_point? hq]
      exact hqs
    · refine h.settled_other hmv horderly hps
        (free_slot_iff.2 fun j t hj hts => ?_)
      by_cases hij : j = i
      · subst hij
        rw [hi] at hj
        cases hj
        exact hps hts
      · refine hfree' j (t.roused mv.woken?) ?_
          ((Thread.slot?_roused _).trans hts)
        exact getElem?_set_wake_of_ne hij hj

end Inv

end Machine

end ResourceHost
