import ResourceHost.Proofs.Threads.Courses

/-!
# Callbacks exclude each other

`load` is called without any lock, all other callbacks under the lock of a
slot.  They exclude each other nevertheless: whoever is within a callback is at
the slot that the table lists for the handle, and either made the slot and has
still to fill it or has locked it with something in it.

What is made for a handle and what is evicted balance: the difference is
whether the handle is listed.
-/

namespace ResourceHost

/-! ### Who is within a callback -/

/-- At work on a slot that is listed: owns it, or carries out a section on it
with something in it. -/
structure Point.AtWork {r : Request} (c : Cache) (s : SlotId) (p : Point r) :
    Prop where
  listed : c.Listed s
  how : p.owner? = some s ∨ p.hold? = some s ∧ ¬ (c.entry s).Blank

/-- Whoever has a callback of a section to make is at work on its slot. -/
theorem Point.atWork_of_since {conduct : Conduct} {c : Cache} {r : Request}
    {p : Point r} {hold : Hold r} {found : Entry} {calls : List Call}
    {call : Call} (hs : hold.Since conduct c found calls)
    (hc : call ∈ hold.sec.calls)
    (ho : p.owner? = if hold.errand.owns then some hold.slot else none)
    (hh : p.hold? = some hold.slot) :
    ∃ s, call.callback.handle = s.handle ∧ p.AtWork c s := by
  obtain ⟨hl, ht⟩ := hs.tidy_of_mem hc
  refine ⟨hold.slot, (ht.calls call hc).handle, hl, ?_⟩
  cases howns : hold.errand.owns with
  | true =>
    refine .inl ?_
    rw [ho, howns]
    rfl
  | false =>
    refine .inr ⟨hh, fun hb => ?_⟩
    have howns' := hs.owns_of_blank hb hc
    rw [howns] at howns'
    cases howns'

theorem Point.atWork_of_callback? {conduct : Conduct} {c : Cache} {r : Request}
    {p : Point r} {cb : Callback} (hp : p.Sound conduct c)
    (hcb : p.callback? = some cb) :
    ∃ s, cb.handle = s.handle ∧ p.AtWork c s := by
  cases p with
  | loading s bytes =>
    cases hcb
    obtain ⟨-, -, hw⟩ := hp
    exact ⟨s, rfl, hw.listed, .inl rfl⟩
  | calling hold call rest =>
    cases hcb
    obtain ⟨hmem, found, hsince⟩ := hp
    exact atWork_of_since hsince hmem rfl rfl
  | _ => cases hcb

namespace Machine

variable {α : Type} {conduct : Conduct} {m m₀ : Machine α}

/-- An owner is at work on its slot. -/
theorem Inv.listed_of_owner? (h : m.Inv conduct) {i : Nat} {t : Thread α}
    {s : SlotId} (hi : m.threads[i]? = some t) (ho : t.owner? = some s) :
    m.cache.Listed s := by
  cases t with
  | finished a => cases ho
  | busy r p next =>
    obtain ⟨hp, -⟩ := h.sound i _ hi
    rcases Point.hold?_or_awaits hp ho with hh | ⟨-, hw⟩
    · obtain ⟨hold, found, calls, rfl, hown, hsince⟩ := hp.since hh
      have howns : hold.errand.owns = true :=
        (Point.owner?_eq_some (hown.symm.trans ho)).1
      exact (hsince.tidy_of_atWork (.inl howns)).1
    · exact hw.listed

/-- No two threads are at work on slots of one handle. -/
theorem Inv.atWork_sole (h : m.Inv conduct) {i j : Nat} {r r' : Request}
    {p : Point r} {p' : Point r'} {next : r.Reply → Program α}
    {next' : r'.Reply → Program α} {s s' : SlotId}
    (hi : m.threads[i]? = some (.busy r p next))
    (hj : m.threads[j]? = some (.busy r' p' next')) (hp : p.AtWork m.cache s)
    (hp' : p'.AtWork m.cache s') (hs : s.handle = s'.handle) : i = j := by
  obtain rfl : s = s' := hp.listed.unique hp'.listed hs
  -- An owner that has not locked the slot leaves nothing in it for another to
  -- lock.
  have hmixed : ∀ {i j : Nat} {r r' : Request} {p : Point r} {p' : Point r'}
      {next : r.Reply → Program α} {next' : r'.Reply → Program α},
      m.threads[i]? = some (.busy r p next) →
      m.threads[j]? = some (.busy r' p' next') →
      p.owner? = some s → p'.hold? = some s → ¬ (m.cache.entry s).Blank →
      i = j := by
    intro i j r r' p p' next next' hi hj ho hl hb
    rcases Point.hold?_or_awaits (h.sound i _ hi).1 ho with hl' | ⟨-, hw⟩
    · exact h.locks i j _ _ s hi hj (Point.slot?_of_hold? hl')
        (Point.slot?_of_hold? hl)
    · exact absurd (.inl hw.fresh) hb
  rcases hp.how with ho | ⟨hl, hb⟩
  · rcases hp'.how with ho' | ⟨hl', hb'⟩
    · exact h.owners i j _ _ s hi hj ho ho'
    · exact hmixed hi hj ho hl' hb'
  · rcases hp'.how with ho' | ⟨hl', -⟩
    · exact (hmixed hj hi ho' hl hb).symm
    · exact h.locks i j _ _ s hi hj (Point.slot?_of_hold? hl)
        (Point.slot?_of_hold? hl')

theorem Inv.callbacks_sole (h : m.Inv conduct) {i j : Nat} {t t' : Thread α}
    {cb cb' : Callback} (hi : m.threads[i]? = some t)
    (hj : m.threads[j]? = some t') (hcb : t.callback? = some cb)
    (hcb' : t'.callback? = some cb') (heq : cb.handle = cb'.handle) :
    i = j := by
  cases t with
  | finished a => cases hcb
  | busy r p next =>
    cases t' with
    | finished a => cases hcb'
    | busy r' p' next' =>
      obtain ⟨s, hs, hp⟩ := Point.atWork_of_callback? (h.sound i _ hi).1 hcb
      obtain ⟨s', hs', hp'⟩ := Point.atWork_of_callback? (h.sound j _ hj).1 hcb'
      exact h.atWork_sole hi hj hp hp' (hs.symm.trans (heq.trans hs'))

theorem Inv.owners_sole (h : m.Inv conduct) {i j : Nat} {t t' : Thread α}
    {s s' : SlotId} (hi : m.threads[i]? = some t) (hj : m.threads[j]? = some t')
    (ho : t.owner? = some s) (ho' : t'.owner? = some s')
    (heq : s.handle = s'.handle) : i = j := by
  have hs : s = s' :=
    (h.listed_of_owner? hi ho).unique (h.listed_of_owner? hj ho') heq
  subst hs
  exact h.owners i j t t' s hi hj ho ho'

end Machine

/-! ### What is made and what is evicted -/

/-- How often a deed was done to the slots of a handle. -/
def Deed.count (d : Deed) (h : Handle) (es : List Event) : Nat :=
  es.countP fun
    | .did _ s d' => decide (s.handle = h ∧ d' = d)
    | _ => false

/-- The count of one deed, if there is one. -/
def Deed.times (d : Deed) (h : Handle) : Option (SlotId × Deed) → Nat
  | some (s, d') => if s.handle = h ∧ d' = d then 1 else 0
  | none => 0

namespace Deed

theorem count_append (d : Deed) (h : Handle) (es es' : List Event) :
    d.count h (es ++ es') = d.count h es + d.count h es' :=
  List.countP_append

theorem count_events (d : Deed) (h : Handle) {r : Request} (i : Nat)
    (p : Point r) (c : Cache) (mv : Move r) :
    d.count h (mv.events i p c) = d.times h (p.deed? c) := by
  have hans : d.count h (mv.answer?.map (Event.answered i r)).toList = 0 := by
    cases mv.answer? <;> rfl
  have hbefell : d.count h ((mv.happening? p c).map Event.befell).toList =
      0 := by
    cases mv.happening? p c <;> rfl
  rw [Move.events, Move.marks, count_append, count_append, hans, hbefell,
    Nat.zero_add, Nat.add_zero]
  cases p.deed? c with
  | none => rfl
  | some x =>
    obtain ⟨s, d'⟩ := x
    by_cases hx : s.handle = h ∧ d' = d <;> simp [count, times, hx]

end Deed

/-- Letting a slot go makes no slot, and counts as an eviction if it is one. -/
theorem Hold.times_deed? {r : Request} {hold : Hold r} {e : Entry}
    (hs : hold.errand.section? hold.slot e = some hold.sec) (h : Handle) :
    Deed.opened.times h (hold.deed?.map fun d => (hold.slot, d)) = 0 ∧
      Deed.inserted.times h (hold.deed?.map fun d => (hold.slot, d)) = 0 ∧
      Deed.failed.times h (hold.deed?.map fun d => (hold.slot, d)) +
          Deed.unloaded.times h (hold.deed?.map fun d => (hold.slot, d)) =
        if hold.sec.evicts = true ∧ hold.slot.handle = h then 1 else 0 := by
  have hno := hold.errand.deed?_ne_opened hold.sec.answer hold.sec.evicts
  have hev := Errand.evicts_iff_deed? hs
  rw [← Hold.deed?] at hno hev
  cases hd : hold.deed? with
  | none => simp [Deed.times, hev, hd]
  | some d =>
    rw [hd] at hno hev
    cases d with
    | opened => exact absurd rfl hno.1
    | inserted => exact absurd rfl hno.2
    | _ => simp [Deed.times, hev]

theorem Cache.isListed_of_find? {c c' : Cache} {h : Handle}
    (hc : c'.find? h = c.find? h) : c'.isListed h = c.isListed h := by
  rw [isListed_eq_isSome, isListed_eq_isSome, hc]

/-- What a move makes and what it evicts is the difference in what is listed. -/
theorem Effect.balance {conduct : Conduct} {r : Request} {c : Cache}
    {p : Point r} {mv : Move r} {d : Option (SlotId × Deed)}
    (he : Effect c p mv d) (hp : p.Sound conduct c) (h : Handle) :
    Deed.opened.times h d + Deed.inserted.times h d +
        (if c.isListed h then 1 else 0) =
      Deed.failed.times h d + Deed.unloaded.times h d +
        (if (mv.cacheAfter c).isListed h then 1 else 0) := by
  cases he with
  | still hc =>
    have hl : (mv.cacheAfter c).isListed h = c.isListed h := by
      rw [Cache.isListed, Cache.isListed, Cache.shelf_eq_of_shelves hc]
    rw [hl]
    rfl
  | @opens h' q d hr hf hq hl hd =>
    show _ = _ + (if (c.openSlot h').isListed h then 1 else 0)
    by_cases hh : h = h'
    · -- One more is made, and the handle is listed from now on.
      subst hh
      have hbefore : c.isListed h = false := by
        simp [Cache.isListed_eq_isSome, hf]
      have hafter : (c.openSlot h).isListed h = true := by
        have hlisted : (c.openSlot h).find? h = some (c.nextSlot h) :=
          c.listed_openSlot_nextSlot h
        simp [Cache.isListed_eq_isSome, hlisted]
      rw [hbefore, hafter]
      rcases hd with rfl | rfl <;> simp [Deed.times, Cache.nextSlot]
    · have hsame : (c.openSlot h').isListed h = c.isListed h :=
        Cache.isListed_of_find? (c.find?_openSlot_of_ne hh)
      have hne : ¬ (c.nextSlot h').handle = h := fun heq => hh heq.symm
      rw [hsame]
      simp [Deed.times, hne]
  | @calls hold call rest =>
    have hsame :
        ((c.record [call.callback]).setEntry hold.slot call.entry).isListed h =
          c.isListed h := Cache.isListed_of_find? (by simp)
    show _ = _ +
      (if ((c.record [call.callback]).setEntry hold.slot call.entry).isListed h
        then 1 else 0)
    rw [hsame]
    rfl
  | @leaves hold hev =>
    obtain ⟨found, hsince⟩ := hp
    obtain ⟨ho, hi, hfu⟩ := Hold.times_deed? hsince.does h
    have hsame : (c.setEntry hold.slot hold.sec.entry).isListed h =
        c.isListed h :=
      Cache.isListed_of_find? (by simp)
    rw [ho, hi, hfu, Moves.cacheAfter_leave, hsame, hev]
    simp
  | @evicts hold =>
    obtain ⟨hev, found, hsince⟩ := hp
    obtain ⟨ho, hi, hfu⟩ := Hold.times_deed? hsince.does h
    have hl : c.find? hold.slot.handle = some hold.slot :=
      hsince.listed_of_evicts hev
    have hafter : ((c.evict hold.slot).setEntry hold.slot
          hold.sec.entry).isListed h =
        ((c.evict hold.slot).find? h).isSome := by
      rw [Cache.isListed_eq_isSome, Cache.find?_setEntry]
    rw [ho, hi, hfu, Moves.cacheAfter_leave, hafter, Cache.find?_evict,
      Cache.isListed_eq_isSome, hev]
    by_cases hh : hold.slot.handle = h
    · -- The slot that is evicted was the one listed.
      subst hh
      simp [hl]
    · have hne : c.find? h ≠ some hold.slot :=
        fun hf => hh (Cache.find?_eq_some_iff.1 hf).1
      simp [hh, hne]

namespace Machine

variable {α : Type} {conduct : Conduct} {m m₀ : Machine α} {es : List Event}

/-- What was made for a handle was evicted again, but for what is listed. -/
theorem Course.balance (h : Course conduct m₀ es m) (h₀ : m₀.Starts conduct)
    (h' : Handle) :
    Deed.opened.count h' es + Deed.inserted.count h' es =
      Deed.failed.count h' es + Deed.unloaded.count h' es +
        (if m.cache.isListed h' then 1 else 0) := by
  induction h with
  | refl =>
    have hl : m₀.cache.isListed h' = false := by
      rw [Cache.isListed_eq_isSome, h₀.find?_eq_none]
      rfl
    rw [hl]
    rfl
  | @step es m m' i h hs ih =>
    obtain ⟨r, p, next, mv, hi, hmv, hev, rfl⟩ := step_cases hs
    have hp := ((h.inv h₀).sound i _ hi).1
    have hbal := hmv.effect.balance hp h'
    simp only [hev, Deed.count_append, Deed.count_events]
    omega
  | @drift es m c h hc ih =>
    have hl : c.isListed h' = m.cache.isListed h' := by
      rw [Cache.isListed, Cache.isListed, Cache.shelf_eq_of_shelves hc.shelves]
    rw [hl]
    exact ih
  | stir h i ih => exact ih

/-- At no time are two callbacks of one handle in progress, or two threads at
filling slots of one handle; and what was made for a handle, for loads and for
contents from outside, is what failed loads and unloads evicted and what is
listed. -/
theorem single_flight (h₀ : m₀.Starts conduct) (h : Course conduct m₀ es m) :
    (∀ (i j : Nat) (t t' : Thread α) (cb cb' : Callback),
      m.threads[i]? = some t → m.threads[j]? = some t' →
      t.callback? = some cb → t'.callback? = some cb' →
        cb.handle = cb'.handle → i = j) ∧
    (∀ (i j : Nat) (t t' : Thread α) (s s' : SlotId),
      m.threads[i]? = some t → m.threads[j]? = some t' →
      t.owner? = some s → t'.owner? = some s' → s.handle = s'.handle → i = j) ∧
    ∀ h : Handle,
      Deed.opened.count h es + Deed.inserted.count h es =
        Deed.failed.count h es + Deed.unloaded.count h es +
          (if m.cache.isListed h then 1 else 0) := by
  have hinv := h.inv h₀
  refine ⟨?_, ?_, h.balance h₀⟩
  · intro i j t t' cb cb' hi hj hcb hcb' heq
    exact hinv.callbacks_sole hi hj hcb hcb' heq
  · intro i j t t' s s' hi hj ho ho' heq
    exact hinv.owners_sole hi hj ho ho' heq

/-- One of two callers is within the callback that loads, and the other sleeps:
only one load has been started. -/
theorem single_flight_of_loaders :
    (callers [loader, loader]).Starts rawConduct ∧
      ∃ (es : List Event) (m : Machine (Except Failure Unit)),
        Course rawConduct (callers [loader, loader]) es m ∧
          (∃ t cb, m.threads[0]? = some t ∧ t.callback? = some cb ∧
            cb.handle = theirs ∧
            ∀ j t' cb', m.threads[j]? = some t' → t'.callback? = some cb' →
              cb'.handle = theirs → j = 0) ∧
          m.cache.isListed theirs = true ∧ Deed.opened.count theirs es = 1 := by
  have h₀ : (callers [loader, loader]).Starts rawConduct := by
    refine starts_callers fun p hp => ?_
    have hloader : p = loader := by simpa using hp
    rw [hloader]
    exact Cache.load_honest _ _
  have hrun := exists_course rawConduct (callers [loader, loader])
    (List.replicate 5 1 ++ List.replicate 5 0)
    (P := fun es m => m.cache.isListed theirs = true ∧
      Deed.inserted.count theirs es = 0 ∧
      Deed.failed.count theirs es = 0 ∧ Deed.unloaded.count theirs es = 0 ∧
      ((m.threads[0]?.bind Thread.callback?).map Callback.handle) =
        some theirs)
    (by decide +kernel)
  obtain ⟨es, m, hr, hend⟩ := hrun
  obtain ⟨hlisted, hins, hfail, hunl, hcall⟩ := of_decide_eq_true hend
  obtain ⟨hsole, -, hcount⟩ := single_flight h₀ hr
  obtain ⟨cb, hcb, hh⟩ := Option.map_eq_some_iff.1 hcall
  obtain ⟨t, ht, htcb⟩ := Option.bind_eq_some_iff.1 hcb
  refine ⟨h₀, es, m, hr, ⟨t, cb, ht, htcb, hh, ?_⟩, hlisted, ?_⟩
  · intro j t' cb' hj hcb' hh'
    exact hsole j 0 t' t cb' cb hj ht hcb' htcb (hh'.trans hh.symm)
  · have hbal := hcount theirs
    rw [hins, hfail, hunl, hlisted] at hbal
    exact hbal

end Machine

end ResourceHost
