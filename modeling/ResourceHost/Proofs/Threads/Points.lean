import ResourceHost.Proofs.Threads.Hands
import ResourceHost.Proofs.Threads.Moves

/-!
# What holds at a point

A thread that has gone to a point knows something of the cache: a slot it has
in hand has been made, a slot it made waits for it, and the section that it
carries out is that of its errand on the entry as it found it.  `Point.Sound`
collects this; `Moves.sound` says that every move leads to a sound point.
-/

namespace ResourceHost

/-! ### The cache as a whole -/

/-- What is listed has been made, for a type that is registered and acts as it
may. -/
structure Cache.Orderly (conduct : Conduct) (c : Cache) : Prop where
  made : ∀ s, c.Listed s → c.Made s
  typed : ∀ s, c.Made s → c.Registered s.handle.type
  conduct : ∀ t k, c.kind? t = some k → conduct t k

/-- A slot waits for the thread that made it. -/
structure Cache.Awaits (c : Cache) (s : SlotId) : Prop where
  listed : c.Listed s
  fresh : c.entry s = Entry.fresh

/-- What is in hand is there. -/
structure Hand.Holds (conduct : Conduct) (c : Cache) (hand : Hand) : Prop where
  slots : ∀ s ∈ hand.slots, c.Made s
  kinds : ∀ t k, (t, k) ∈ hand.kinds → c.Knows t k ∧ conduct t k

/-- The cache knows a kind that is in hand, and this acts as it may. -/
theorem Hand.Holds.has {conduct : Conduct} {c : Cache} {hand : Hand}
    {t : TypeId} {k : Kind} (h : hand.Holds conduct c)
    (hk : hand.Has conduct t k) : c.Knows t k ∧ conduct t k := by
  obtain ⟨k₀, hmem, rfl | ⟨hsame, hacts⟩⟩ := hk
  · exact h.kinds t k hmem
  · obtain ⟨⟨k', hk', heq⟩, -⟩ := h.kinds t k₀ hmem
    exact ⟨⟨k', hk', heq.trans hsame.symm⟩, hacts⟩

/-! ### Errands and holds -/

/-- Has been told of the kind that the cache knows, if it asks for the kind at
all. -/
def Errand.Briefed (conduct : Conduct) (c : Cache) {r : Request} :
    Errand r → Prop
  | .visit (h := h) (v := v) kind? =>
    kind? = none ∧ v.consults = .never ∨
      ∃ k, kind? = some k ∧ c.Knows h.type k ∧ conduct h.type k
  | _ => True

theorem Errand.Briefed.mono {conduct : Conduct} {c c' : Cache} {r : Request}
    {errand : Errand r} (h : errand.Briefed conduct c)
    (hk : ∀ t k, c.Knows t k → c'.Knows t k) : errand.Briefed conduct c' := by
  cases errand with
  | visit kind? =>
    refine h.imp_right ?_
    rintro ⟨k, hkind, hknows, hacts⟩
    exact ⟨k, hkind, hk _ _ hknows, hacts⟩
  | _ => trivial

@[simp] theorem Errand.owns_informed {r : Request} (errand : Errand r)
    (kind? : Option Kind) : (errand.informed kind?).owns = errand.owns := by
  cases errand <;> rfl

/-- What is known of a thread that has locked a slot and has some callbacks
still to make: `found` is the entry as it found it. -/
structure Hold.Since (conduct : Conduct) (c : Cache) {r : Request}
    (hold : Hold r) (found : Entry) (calls : List Call) : Prop where
  about : r.handle? = some hold.slot.handle
  made : c.Made hold.slot
  settled : found.Settled (c.Listed hold.slot)
  briefed : hold.errand.Briefed conduct c
  owns : hold.errand.owns = true → found = Entry.fresh
  does : hold.errand.section? hold.slot found = some hold.sec
  rest : calls <:+ hold.sec.calls
  /-- The entry is as it was found, or as the latest callback has it. -/
  stands : calls = hold.sec.calls ∧ c.entry hold.slot = found ∨
    ∃ call ∈ hold.sec.calls, c.entry hold.slot = call.entry

namespace Hold.Since

variable {conduct : Conduct} {c : Cache} {r : Request} {hold : Hold r}
  {found : Entry} {calls : List Call}

theorem idle_or_tidy (h : hold.Since conduct c found calls) :
    (hold.errand.owns = false ∧ found.Blank ∧ hold.sec.Idle found) ∨
      (c.Listed hold.slot ∧ hold.sec.Tidy hold.slot.handle found) :=
  Errand.idle_or_tidy h.settled h.owns h.about h.does

/-- Whoever makes a callback is at a slot that is listed. -/
theorem tidy_of_mem (h : hold.Since conduct c found calls) {call : Call}
    (hc : call ∈ hold.sec.calls) :
    c.Listed hold.slot ∧ hold.sec.Tidy hold.slot.handle found := by
  rcases h.idle_or_tidy with ⟨-, -, hi⟩ | ht
  · rw [hi.calls] at hc
    cases hc
  · exact ht

/-- Nothing has been done yet to an entry that holds nothing. -/
theorem found_of_blank (h : hold.Since conduct c found calls)
    (hb : (c.entry hold.slot).Blank) : c.entry hold.slot = found := by
  rcases h.stands with ⟨-, he⟩ | ⟨call, hc, he⟩
  · exact he
  · have hfits := (h.tidy_of_mem hc).2.calls call hc
    rw [he] at hb
    rcases hb with hb | hb
    · exact absurd (congrArg Entry.state hb) hfits.not_loading
    · exact absurd hb.state hfits.not_unloaded

/-- Only the thread that made the slot has anything to call while the entry
holds nothing. -/
theorem owns_of_blank (h : hold.Since conduct c found calls)
    (hb : (c.entry hold.slot).Blank) {call : Call}
    (hc : call ∈ hold.sec.calls) : hold.errand.owns = true := by
  cases ho : hold.errand.owns with
  | true => rfl
  | false =>
    rw [h.found_of_blank hb] at hb
    have hidle := Errand.idle_of_blank ho hb h.does
    rw [hidle.calls] at hc
    cases hc

/-- A section that its slot's owner carries out, or on a slot with something in
it, is tidy. -/
theorem tidy_of_atWork (h : hold.Since conduct c found calls)
    (hw : hold.errand.owns = true ∨ ¬ (c.entry hold.slot).Blank) :
    c.Listed hold.slot ∧ hold.sec.Tidy hold.slot.handle found := by
  rcases h.idle_or_tidy with ⟨ho, hb, hidle⟩ | ht
  · rcases hw with howns | hnb
    · rw [ho] at howns
      cases howns
    · rcases h.stands with ⟨-, he⟩ | ⟨call, hc, -⟩
      · exact absurd (he ▸ hb) hnb
      · rw [hidle.calls] at hc
        cases hc
  · exact ht

theorem refCount (h : hold.Since conduct c found calls) :
    (c.entry hold.slot).refCount = found.refCount := by
  rcases h.stands with ⟨-, he⟩ | ⟨call, hc, he⟩
  · rw [he]
  · rw [he]
    exact ((h.tidy_of_mem hc).2.calls call hc).refCount

/-- A section leaves to its end whether the entry has been filled. -/
theorem waiting (h : hold.Since conduct c found calls) :
    (c.entry hold.slot).Waiting ↔ found.Waiting := by
  rcases h.stands with ⟨-, he⟩ | ⟨call, hc, he⟩
  · rw [he]
  · rw [he]
    exact ((h.tidy_of_mem hc).2.calls call hc).waiting

theorem settled_after (h : hold.Since conduct c found calls) :
    hold.sec.entry.Settled (c.Listed hold.slot ∧ hold.sec.evicts = false) :=
  Errand.settled_after h.settled h.owns h.about h.does

theorem listed_of_evicts (h : hold.Since conduct c found calls)
    (hev : hold.sec.evicts = true) : c.Listed hold.slot :=
  Errand.listed_of_evicts h.settled h.owns h.about h.does hev

theorem tail {call : Call} (h : hold.Since conduct c found (call :: calls)) :
    call ∈ hold.sec.calls ∧ calls <:+ hold.sec.calls :=
  ⟨h.rest.subset (by simp), (List.suffix_cons call calls).trans h.rest⟩

end Hold.Since

/-! ### Points -/

namespace Point

variable {r : Request}

/-- The slot that a thread made and has not filled yet. -/
def owner? : Point r → Option SlotId
  | .fetch s | .loading s _ => some s
  | .consult s errand _ | .consulting s errand _ | .enter s errand
  | .parked s errand =>
    if errand.owns then some s else none
  | .inside hold _ | .calling hold _ _ | .evict hold | .evicting hold =>
    if hold.errand.owns then some hold.slot else none
  | _ => none

/-- What a thread at a point knows of the cache. -/
def Sound (conduct : Conduct) (c : Cache) : Point r → Prop
  | .start | .begun => True
  | .rouse s _ => r.handle? = some s.handle
  | .consult s errand locked | .consulting s errand locked =>
    r.handle? = some s.handle ∧ c.Made s ∧ errand.owns = false ∧
      (locked = true → (c.entry s).Settled (c.Listed s))
  | .fetch s | .loading s _ => r.handle? = some s.handle ∧ c.Made s ∧ c.Awaits s
  | .enter s errand =>
    r.handle? = some s.handle ∧ c.Made s ∧ (errand.owns = true → c.Awaits s) ∧
      (errand.consults ≠ .inside → errand.Briefed conduct c)
  | .parked s errand =>
    r.handle? = some s.handle ∧ c.Made s ∧ errand.owns = false ∧
      (errand.consults ≠ .inside → errand.Briefed conduct c)
  | .inside hold calls => ∃ found, hold.Since conduct c found calls
  | .calling hold call rest =>
    call ∈ hold.sec.calls ∧ ∃ found, hold.Since conduct c found rest
  | .evict hold | .evicting hold =>
    hold.sec.evicts = true ∧ ∃ found, hold.Since conduct c found []

end Point

/-! ### Moves lead to sound points -/

namespace Moves

variable {conduct : Conduct} {r : Request} {free : Free} {c : Cache}
  {p p' : Point r} {mv : Move r}

theorem point?_leave (hold : Hold r) (c : Cache) (p : Point r)
    (hp : (Move.leave hold c).point? = some p) :
    p = .rouse hold.slot hold.sec.answer := by
  unfold Move.leave at hp
  dsimp only at hp
  split at hp
  · exact (Option.some.inj hp).symm
  · cases hp

theorem answer?_leave (hold : Hold r) (c : Cache) (a : r.Reply)
    (ha : (Move.leave hold c).answer? = some a) : a = hold.sec.answer := by
  unfold Move.leave at ha
  dsimp only at ha
  split at ha
  · cases ha
  · exact (Option.some.inj ha).symm

theorem leave_of_not_wakes {hold : Hold r} (h : hold.wakes = false)
    (c : Cache) :
    Move.leave hold c =
      .reply hold.sec.answer none (c.setEntry hold.slot hold.sec.entry) := by
  unfold Move.leave
  simp only [h, Bool.false_eq_true, if_false]

theorem briefed_informed (hc : c.Orderly conduct) {s : SlotId}
    {errand : Errand r} (hs : c.Made s) (hr : r.handle? = some s.handle) :
    (errand.informed (c.kind? s.handle.type)).Briefed conduct c := by
  cases errand with
  | visit kind? =>
    cases hr
    obtain ⟨k, hk⟩ := Option.isSome_iff_exists.1 (hc.typed s hs)
    exact .inr ⟨k, hk, Cache.knows_of_kind? hk, hc.conduct _ k hk⟩
  | settle outcome => trivial
  | join => trivial
  | introduce => trivial
  | look => trivial

theorem since_work {s : SlotId} {errand : Errand r}
    {sec : Section r.Reply} (hr : r.handle? = some s.handle) (hm : c.Made s)
    (he : (c.entry s).Settled (c.Listed s)) (hb : errand.Briefed conduct c)
    (ho : errand.owns = true → c.entry s = Entry.fresh)
    (hs : errand.section? s (c.entry s) = some sec) :
    Hold.Since conduct c ⟨s, errand, sec⟩ (c.entry s) sec.calls :=
  ⟨hr, hm, he, hb, ho, hs, List.suffix_refl _, .inl ⟨rfl, rfl⟩⟩

/-- Every move leads to a sound point. -/
theorem sound (h : Moves free c p mv) (hc : c.Orderly conduct)
    (hfree : ∀ s, free.slot s = true → (c.entry s).Settled (c.Listed s))
    {hand : Hand} (hh : hand.Holds conduct c) (hr : r.Honest conduct hand)
    (hp : p.Sound conduct c) (hp' : mv.point? = some p') :
    p'.Sound conduct (mv.cacheAfter c) := by
  -- What is known at `p'` was known at `p`, is given by the request's honesty,
  -- or is read off the slot whose lock was found free.
  cases h with
  | turn hl hf => cases hp'; trivial
  | answer ho hn => cases hp'
  | look ho =>
    cases hp'
    exact ⟨rfl, hh.slots _ hr, by simp [Errand.owns], fun _ => trivial⟩
  | join ho hs =>
    cases hp'
    obtain ⟨rfl, hl⟩ := Cache.find?_eq_some_iff.1 hs
    exact ⟨rfl, hc.made _ hl, by simp [Errand.owns], fun _ => trivial⟩
  | load ho hs =>
    cases hp'
    exact ⟨rfl, (c.made_openSlot).2 (.inr rfl), c.listed_openSlot_nextSlot _,
      c.entry_openSlot_nextSlot _⟩
  | refuse ho hs => cases hp'
  | insert ho hs =>
    cases hp'
    exact ⟨rfl, (c.made_openSlot).2 (.inr rfl),
      fun _ => ⟨c.listed_openSlot_nextSlot _, c.entry_openSlot_nextSlot _⟩,
      fun _ => trivial⟩
  | absent ho hs => cases hp'
  | @find _ v _ s ho hs hv =>
    cases hp'
    obtain ⟨rfl, hl⟩ := Cache.find?_eq_some_iff.1 hs
    refine ⟨rfl, hc.made _ hl, by simp [Errand.owns], fun hin => .inl ⟨rfl, ?_⟩⟩
    simp only [Errand.consults] at hin
    cases hv' : v.consults with
    | never => rfl
    | before => exact absurd hv' hv
    | inside => exact absurd hv' hin
  | findAndAsk ho hs hv =>
    cases hp'
    obtain ⟨rfl, hl⟩ := Cache.find?_eq_some_iff.1 hs
    exact ⟨rfl, hc.made _ hl, rfl, by simp⟩
  | ask hf => cases hp'; exact hp
  | told =>
    cases hp'
    obtain ⟨ha, hm, ho, -⟩ := hp
    exact ⟨ha, hm, by simp [ho], fun _ => briefed_informed hc hm ha⟩
  | toldAndWork hs =>
    cases hp'
    obtain ⟨ha, hm, ho, he⟩ := hp
    exact ⟨_,
      since_work ha hm (he rfl) (briefed_informed hc hm ha) (by simp [ho]) hs⟩
  | toldAndStart hs => cases hp'; trivial
  | unread hsrc =>
    cases hp'
    obtain ⟨ha, hm, hw⟩ := hp
    exact ⟨ha, hm, fun _ => hw, fun _ => trivial⟩
  | read hsrc =>
    cases hp'
    obtain ⟨ha, hm, hw⟩ := hp
    exact ⟨ha, hm, hw.listed, hw.fresh⟩
  | loaded hk =>
    cases hp'
    obtain ⟨ha, hm, hw⟩ := hp
    exact ⟨ha, hm, fun _ => hw, fun _ => trivial⟩
  | rejected hk =>
    cases hp'
    obtain ⟨ha, hm, hw⟩ := hp
    exact ⟨ha, hm, fun _ => hw, fun _ => trivial⟩
  | @park _ s errand hf hw =>
    cases hp'
    obtain ⟨ha, hm, -, hb⟩ := hp
    have ho : errand.owns = false := by cases errand <;> first | rfl | cases hw
    exact ⟨ha, hm, ho, hb⟩
  | @hold _ s errand hf hin =>
    cases hp'
    obtain ⟨ha, hm, -, -⟩ := hp
    have ho : errand.owns = false := by cases errand <;> first | rfl | cases hin
    exact ⟨ha, hm, ho, fun _ => hfree _ hf⟩
  | work hf hw hin hs =>
    cases hp'
    obtain ⟨ha, hm, ho, hb⟩ := hp
    exact ⟨_, since_work ha hm (hfree _ hf) (hb hin) (fun h => (ho h).fresh) hs⟩
  | restart hf hw hin hs => cases hp'; trivial
  | @call _ hold call rest =>
    -- The entry is now as the callback has it.
    cases hp'
    obtain ⟨found, hs⟩ := hp
    obtain ⟨hmem, hrest⟩ := hs.tail
    refine ⟨hmem, found, hs.about, Cache.made_setEntry.2 hs.made,
      hs.settled.mono Cache.listed_setEntry.symm, hs.briefed, hs.owns,
      hs.does, hrest,
      .inr ⟨call, hmem, ?_⟩⟩
    exact Cache.entry_setEntry_record_self hs.made _ _
  | back =>
    cases hp'
    exact hp.2
  | wait hev => cases hp'; exact ⟨hev, hp⟩
  | leave hev =>
    rw [point?_leave _ _ _ hp']
    obtain ⟨found, hs⟩ := hp
    exact hs.about
  | take hf => cases hp'; exact hp
  | evict =>
    rw [point?_leave _ _ _ hp']
    obtain ⟨-, found, hs⟩ := hp
    exact hs.about
  | rouse => cases hp'

end Moves

end ResourceHost
