import ResourceHost.Proofs.Threads.Courses

/-!
# The story of a slot

What was done to a slot, deed by deed, tells what has become of it: whether it
waits to be filled, holds something or is gone, and how many references it
counts.
-/

namespace ResourceHost

/-- The references after a deed. -/
def Deed.refs : Deed → Nat → Nat
  | .settled, _ => 1
  | .joined, n => n + 1
  | .released, n => n - 1
  | .opened, _ | .inserted, _ | .failed, _ | .unloaded, _ => 0

/-- Takes a reference. -/
def Deed.Takes (d : Deed) : Prop := d = .settled ∨ d = .joined

instance (d : Deed) : Decidable d.Takes := inferInstanceAs (Decidable (_ ∨ _))

/-- Makes a slot, or drops a reference that is not there. -/
def Deed.Early (d : Deed) : Prop := d = .opened ∨ d = .inserted ∨ d = .released

/-- Takes or drops a reference to what has been filled. -/
def Deed.Late (d : Deed) : Prop := d = .joined ∨ d = .released

/-! ### What errands do to the references -/

namespace Errand

variable {r : Request} {errand : Errand r} {s : SlotId} {e : Entry}
  {sec : Section r.Reply}

theorem join_cases {h : Handle} {k : Kind} {sec : Section (Except Failure Unit)}
    (hs : (Errand.join (h := h) (k := k)).section? s e = some sec) :
    sec = { entry := { e with refCount := e.refCount + 1 }, answer := .ok () } ∨
      ∃ f, sec = e.answering (.error f) := by
  simp only [section?, Entry.join?] at hs
  split at hs
  · exact .inl (Option.some.inj hs).symm
  · exact .inl (Option.some.inj hs).symm
  · obtain ⟨f, -, rfl⟩ := Option.map_eq_some_iff.1 hs
    exact .inr ⟨f, rfl⟩

/-- An operation that does not evict leaves the count alone, unless it is a
release. -/
theorem refCount_inside (v : Visit) (h : Handle) (kind? : Option Kind)
    (e : Entry) :
    (v.inside h kind? e).entry.refCount =
      ((v.deed? (v.inside h kind? e).evicts).elim e.refCount fun d => d.refs
        e.refCount) := by
  cases v with
  | get => rfl
  | state => rfl
  | refCount => rfl
  | release => rfl
  | offline =>
    simp only [Visit.inside, Entry.takeOffline]
    split
    · split <;> rfl
    all_goals rfl
  | online =>
    simp only [Visit.inside, Entry.bringOnline]
    split
    · rfl
    · split <;> rfl
    · rfl
  | reload bytes =>
    simp only [Visit.inside, Entry.reload]
    split
    · rfl
    · split
      · simp only [Entry.replace]
        split <;> rfl
      · simp only [Entry.replace]
        split <;> rfl
      · rfl
  | unload =>
    simp only [Visit.inside, Entry.unload]
    split
    · rfl
    · split <;> rfl

/-- The count that a section ends with is that of its deed. -/
theorem refCount_after (hs : errand.section? s e = some sec)
    (ho : errand.owns = true → e = Entry.fresh) :
    sec.entry.refCount =
      (errand.deed? sec.answer sec.evicts).elim e.refCount fun d => d.refs
        e.refCount := by
  cases errand with
  | settle outcome =>
    cases ho rfl
    cases outcome with
    | ok x => cases hs; rfl
    | error f => cases hs; rfl
  | join => rcases join_cases hs with rfl | ⟨f, rfl⟩ <;> rfl
  | introduce => cases hs; rfl
  | visit kind? =>
    cases hs
    exact refCount_inside _ _ _ _
  | look => cases hs; rfl

theorem deed?_of_owns (ho : errand.owns = true)
    (hs : errand.section? s e = some sec) (hev : sec.evicts = false) :
    errand.deed? sec.answer sec.evicts = some .settled := by
  cases errand with
  | settle outcome =>
    cases outcome with
    | ok x => cases hs; rfl
    | error f => cases hs; cases hev
  | introduce => cases hs; rfl
  | _ => cases ho

/-- A visitor who does not evict takes or drops a reference, or does nothing. -/
theorem deed?_of_visitor (ho : errand.owns = false) (hev : sec.evicts = false) :
    ∀ d, errand.deed? sec.answer sec.evicts = some d → d.Late := by
  intro d hd
  rw [hev] at hd
  cases errand with
  | settle outcome => cases ho
  | introduce => cases ho
  | join =>
    cases ha : sec.answer with
    | ok u =>
      rw [ha] at hd
      cases hd
      exact .inl rfl
    | error f =>
      rw [ha] at hd
      cases hd
  | @visit _ v _ =>
    cases v <;> cases hd
    exact .inr rfl
  | look => cases hd

/-- On an entry that holds nothing a visitor drops a reference at most. -/
theorem deed?_of_blank (ho : errand.owns = false) (hb : e.Blank)
    (hs : errand.section? s e = some sec) :
    ∀ d, errand.deed? sec.answer sec.evicts = some d → d = .released := by
  intro d hd
  have hidle := idle_of_blank ho hb hs
  rcases deed?_of_visitor ho hidle.evicts d hd with rfl | rfl
  · -- To join is to count one more, and the entry stays as it is.
    have hcount := refCount_after hs (by simp [ho])
    rw [hidle.entry, hd] at hcount
    exact absurd hcount (Nat.ne_of_lt (Nat.lt_succ_self _))
  · rfl

end Errand

/-! ### The deeds done to a slot -/

/-- The deeds that were done to a slot, the latest first. -/
def Event.deedsOn (s : SlotId) (es : List Event) : List Deed :=
  es.filterMap fun
    | .did _ s' d => if s' = s then some d else none
    | _ => none

/-- The deed of a move, if it is done to a slot. -/
def Deed.on (s : SlotId) : Option (SlotId × Deed) → List Deed
  | some (s', d) => if s' = s then [d] else []
  | none => []

theorem Deed.on_self (s : SlotId) (d : Option Deed) :
    Deed.on s (d.map fun d => (s, d)) = d.toList := by
  cases d with
  | none => rfl
  | some d => exact if_pos rfl

theorem Deed.on_of_ne {s s' : SlotId} (hs : s' ≠ s) (d : Option Deed) :
    Deed.on s (d.map fun d => (s', d)) = [] := by
  cases d with
  | none => rfl
  | some d => exact if_neg hs

theorem Event.deedsOn_append (s : SlotId) (es es' : List Event) :
    deedsOn s (es ++ es') = deedsOn s es ++ deedsOn s es' :=
  List.filterMap_append

theorem Event.deedsOn_events (s : SlotId) {r : Request} (i : Nat) (p : Point r)
    (c : Cache) (mv : Move r) :
    deedsOn s (mv.events i p c) = Deed.on s (p.deed? c) := by
  have hans : deedsOn s (mv.answer?.map (Event.answered i r)).toList = [] := by
    cases mv.answer? <;> rfl
  have hbefell : deedsOn s ((mv.happening? p c).map Event.befell).toList =
      [] := by
    cases mv.happening? p c <;> rfl
  rw [Move.events, Move.marks, deedsOn_append, deedsOn_append, hans, hbefell,
    List.nil_append, List.append_nil]
  cases p.deed? c with
  | none => rfl
  | some x =>
    obtain ⟨s', d⟩ := x
    by_cases hs : s' = s <;> simp [deedsOn, Deed.on, hs]

/-! ### The count -/

section

variable {conduct : Conduct} {c : Cache} {r : Request} {hold : Hold r}
  {found : Entry}

theorem Hold.Since.refCount_after (hs : hold.Since conduct c found []) :
    hold.sec.entry.refCount =
      hold.deed?.toList.foldr Deed.refs (c.entry hold.slot).refCount := by
  rw [hs.refCount]
  have hcount := Errand.refCount_after hs.does hs.owns
  rw [← Hold.deed?] at hcount
  rw [hcount]
  cases hold.deed? <;> rfl

/-- Every move changes the count of every slot by its deed. -/
theorem Effect.refCount {p : Point r} {mv : Move r} {d : Option (SlotId × Deed)}
    (he : Effect c p mv d) (hp : p.Sound conduct c) (s : SlotId) :
    ((mv.cacheAfter c).entry s).refCount =
      (Deed.on s d).foldr Deed.refs (c.entry s).refCount := by
  -- The count of a slot changes when it is made and when it is let go; its
  -- callbacks keep it.
  cases he with
  | still hc =>
    exact congrArg Entry.refCount (Cache.Keeps.of_shelves hc s).entry
  | @opens h' q d hr hf hq hl hd =>
    show ((c.openSlot h').entry s).refCount = _
    by_cases hs : s = c.nextSlot h'
    · subst hs
      rw [c.entry_openSlot_nextSlot, Deed.on, if_pos rfl]
      rcases hd with rfl | rfl <;> rfl
    · have hon : Deed.on s (some (c.nextSlot h', d)) = [] :=
        if_neg fun heq => hs heq.symm
      rw [hon]
      by_cases hm : c.Made s
      · rw [c.entry_openSlot_of_made hm]
        rfl
      · have hm' : ¬ (c.openSlot h').Made s := by
          rw [c.made_openSlot]
          exact fun h => h.elim hm hs
        rw [Cache.entry_of_not_made hm', Cache.entry_of_not_made hm]
        rfl
  | @calls hold call rest =>
    obtain ⟨found, hsince⟩ := hp
    show (((c.record [call.callback]).setEntry hold.slot call.entry).entry
      s).refCount = _
    by_cases hs : s = hold.slot
    · subst hs
      obtain ⟨hmem, -⟩ := hsince.tail
      have hfits := (hsince.tidy_of_mem hmem).2.calls call hmem
      rw [Cache.entry_setEntry_record_self hsince.made, hfits.refCount,
        ← hsince.refCount]
      rfl
    · rw [Cache.entry_setEntry_of_ne hs]
      rfl
  | @leaves hold hev =>
    obtain ⟨found, hsince⟩ := hp
    rw [Moves.cacheAfter_leave]
    by_cases hs : s = hold.slot
    · subst hs
      rw [Cache.entry_setEntry_self hsince.made, Deed.on_self]
      exact hsince.refCount_after
    · rw [Cache.entry_setEntry_of_ne hs, Deed.on_of_ne (Ne.symm hs)]
      rfl
  | @evicts hold =>
    obtain ⟨hev, found, hsince⟩ := hp
    rw [Moves.cacheAfter_leave]
    by_cases hs : s = hold.slot
    · subst hs
      rw [Cache.entry_setEntry_self (Cache.made_evict.2 hsince.made),
        Deed.on_self]
      exact hsince.refCount_after
    · rw [Cache.entry_setEntry_of_ne hs, Cache.entry_evict,
        Deed.on_of_ne (Ne.symm hs)]
      rfl

end

/-! ### The story of a slot -/

/-- What the deeds that were done to a slot have made of it. -/
inductive Story (c : Cache) (s : SlotId) : List Deed → Prop where
  | unmade (hm : ¬ c.Made s) : Story c s []
  | waiting {ds : List Deed} (hm : c.Made s) (hl : c.Listed s)
      (hw : (c.entry s).Waiting) (hds : ∀ d ∈ ds, d.Early) : Story c s ds
  | held {later earlier : List Deed} (hm : c.Made s) (hl : c.Listed s)
      (hw : ¬ (c.entry s).Waiting) (hlater : ∀ d ∈ later, d.Late)
      (hearlier : ∀ d ∈ earlier, d.Early) :
      Story c s (later ++ .settled :: earlier)
  | gone {ds : List Deed} (hm : c.Made s) (hl : ¬ c.Listed s) : Story c s ds

namespace Story

variable {c c' : Cache} {s : SlotId} {ds : List Deed}

theorem keeps (h : Story c s ds) (hm : c'.Made s ↔ c.Made s)
    (hk : c.Keeps c' s) : Story c' s ds := by
  cases h with
  | unmade hn => exact .unmade fun h => hn (hm.1 h)
  | waiting hmade hl hw hds =>
    rw [← hk.entry] at hw
    exact .waiting (hm.2 hmade) (hk.listed.2 hl) hw hds
  | held hmade hl hw hlater hearlier =>
    rw [← hk.entry] at hw
    exact .held (hm.2 hmade) (hk.listed.2 hl) hw hlater hearlier
  | gone hmade hl => exact .gone (hm.2 hmade) fun h => hl (hk.listed.1 h)

/-- A listed slot that has been made waits to be filled or holds something. -/
theorem listed_cases (h : Story c s ds) (hm : c.Made s) (hl : c.Listed s) :
    (c.entry s).Waiting ∧ (∀ d ∈ ds, d.Early) ∨
      ¬ (c.entry s).Waiting ∧
      ∃ later earlier, ds = later ++ .settled :: earlier ∧
        (∀ d ∈ later, d.Late) ∧ ∀ d ∈ earlier, d.Early := by
  cases h with
  | unmade hn => exact absurd hm hn
  | waiting _ _ hw hds => exact .inl ⟨hw, hds⟩
  | held _ _ hw hlater hearlier => exact .inr ⟨hw, _, _, rfl, hlater, hearlier⟩
  | gone _ hn => exact absurd hl hn

/-- The story of a listed slot does not change while it stays listed and is not
filled. -/
theorem calls (h : Story c s ds) (hm : c.Made s) (hl : c.Listed s)
    (hm' : c'.Made s) (hl' : c'.Listed s)
    (hw : (c'.entry s).Waiting ↔ (c.entry s).Waiting) : Story c' s ds := by
  rcases h.listed_cases hm hl with
    ⟨hwait, hds⟩ | ⟨hwait, later, earlier, rfl, hlater, hearlier⟩
  · exact .waiting hm' hl' (hw.2 hwait) hds
  · exact .held hm' hl' (fun h => hwait (hw.1 h)) hlater hearlier

variable {conduct : Conduct} {r : Request} {hold : Hold r} {found : Entry}

/-- The story goes on when a slot is let go that held nothing: at most a
release found nothing to drop. -/
theorem leaves_idle (h : Story c hold.slot ds)
    (hs : hold.Since conduct c found []) (ho : hold.errand.owns = false)
    (hb : found.Blank) (hidle : hold.sec.Idle found) :
    Story (c.setEntry hold.slot hold.sec.entry) hold.slot
      (hold.deed?.toList ++ ds) := by
  have hdeed : ∀ d ∈ hold.deed?.toList, d = .released := by
    intro d hd
    exact Errand.deed?_of_blank ho hb hs.does d (Option.mem_toList.1 hd)
  have hsame : hold.sec.entry = c.entry hold.slot := by
    rcases hs.stands with ⟨-, he⟩ | ⟨call, hmem, -⟩
    · exact hidle.entry.trans he.symm
    · rw [hidle.calls] at hmem
      cases hmem
  have hm' : (c.setEntry hold.slot hold.sec.entry).Made hold.slot :=
    Cache.made_setEntry.2 hs.made
  have hkeep := Cache.keeps_setEntry_self hs.made hsame
  by_cases hl : c.Listed hold.slot
  · rcases h.listed_cases hs.made hl with ⟨hw, hds⟩ | ⟨hw, -⟩
    · refine .waiting hm' (hkeep.listed.2 hl) (by rwa [hkeep.entry]) ?_
      intro d hd
      rcases List.mem_append.1 hd with hd | hd
      · exact .inr (.inr (hdeed d hd))
      · exact hds d hd
    · -- A listed slot that holds nothing is fresh, and still waits to be
      -- filled.
      rw [hs.waiting] at hw
      cases hs.settled with
      | loading _ he => exact absurd (he ▸ Entry.fresh_waiting) hw
      | loaded _ he => exact absurd hb he.not_blank
      | gone hn _ => exact absurd hl hn
  · exact .gone hm' fun hl' => hl (hkeep.listed.1 hl')

/-- The thread that made a slot fills it. -/
theorem leaves_filled (h : Story c hold.slot ds)
    (hs : hold.Since conduct c found []) (ho : hold.errand.owns = true)
    (hl : c.Listed hold.slot) (hd : hold.sec.entry.Loaded)
    (hev : hold.sec.evicts = false) :
    Story (c.setEntry hold.slot hold.sec.entry) hold.slot
      (hold.deed?.toList ++ ds) := by
  have hdeed : hold.deed? = some .settled := Errand.deed?_of_owns ho hs.does hev
  rw [hdeed]
  rcases h.listed_cases hs.made hl with ⟨-, hds⟩ | ⟨hw, -⟩
  · show Story _ _ ([] ++ .settled :: ds)
    refine .held (Cache.made_setEntry.2 hs.made) (Cache.listed_setEntry.2 hl) ?_
      (by simp) hds
    rw [Cache.entry_setEntry_self hs.made]
    exact hd.not_waiting
  · rw [hs.waiting, hs.owns ho] at hw
    exact absurd Entry.fresh_waiting hw

/-- A visitor takes or drops a reference to what is there, or neither. -/
theorem leaves_visited (h : Story c hold.slot ds)
    (hs : hold.Since conduct c found []) (ho : hold.errand.owns = false)
    (hl : c.Listed hold.slot) (hf : found.Loaded) (hd : hold.sec.entry.Loaded)
    (hev : hold.sec.evicts = false) :
    Story (c.setEntry hold.slot hold.sec.entry) hold.slot
      (hold.deed?.toList ++ ds) := by
  have hlate : ∀ d ∈ hold.deed?.toList, d.Late := by
    intro d hd
    exact Errand.deed?_of_visitor ho hev d (Option.mem_toList.1 hd)
  rcases h.listed_cases hs.made hl with
    ⟨hw, -⟩ | ⟨-, later, earlier, rfl, hlater, hearlier⟩
  · rw [hs.waiting] at hw
    exact absurd hw hf.not_waiting
  · rw [← List.append_assoc]
    refine .held (Cache.made_setEntry.2 hs.made) (Cache.listed_setEntry.2 hl) ?_
      ?_ hearlier
    · rw [Cache.entry_setEntry_self hs.made]
      exact hd.not_waiting
    · intro d hd
      rcases List.mem_append.1 hd with hd | hd
      · exact hlate d hd
      · exact hlater d hd

theorem leaves (h : Story c hold.slot ds) (hs : hold.Since conduct c found [])
    (hev : hold.sec.evicts = false) :
    Story (c.setEntry hold.slot hold.sec.entry) hold.slot
      (hold.deed?.toList ++ ds) := by
  rcases hs.idle_or_tidy with ⟨ho, hb, hidle⟩ | ⟨hl, ht⟩
  · exact h.leaves_idle hs ho hb hidle
  · have hd : hold.sec.entry.Loaded := ht.loaded hev
    cases ho : hold.errand.owns with
    | true => exact h.leaves_filled hs ho hl hd hev
    | false =>
      -- A visitor finds nothing in a slot that is still loading, and what it
      -- finds otherwise stays.
      cases hs.settled with
      | loading _ hf =>
        have hidle := Errand.idle_of_blank ho (.inl hf) hs.does
        exact h.leaves_idle hs ho (.inl hf) hidle
      | loaded _ hf => exact h.leaves_visited hs ho hl hf hd hev
      | gone hn _ => exact absurd hl hn

/-- Every move goes on with the story of every slot, by its deed. -/
theorem move {p : Point r} {mv : Move r} {d : Option (SlotId × Deed)}
    (h : Story c s ds) (he : Effect c p mv d) (hp : p.Sound conduct c) :
    Story (mv.cacheAfter c) s (Deed.on s d ++ ds) := by
  cases he with
  | still hc => exact h.keeps (Cache.made_of_shelves hc s) (.of_shelves hc s)
  | @opens h' q d hr hf hq hl hd =>
    by_cases hs : s = c.nextSlot h'
    · subst hs
      cases h with
      | unmade hm =>
        rw [Deed.on, if_pos rfl]
        refine .waiting (c.made_openSlot.2 (.inr rfl))
          (c.listed_openSlot_nextSlot h') ?_ ?_
        · exact (c.entry_openSlot_nextSlot h').symm ▸ Entry.fresh_waiting
        · intro d' hd'
          rw [List.append_nil, List.mem_singleton] at hd'
          subst hd'
          exact hd.elim .inl fun h => .inr (.inl h)
      | waiting hm => exact absurd hm (c.not_made_nextSlot h')
      | held hm => exact absurd hm (c.not_made_nextSlot h')
      | gone hm => exact absurd hm (c.not_made_nextSlot h')
    · have hon : Deed.on s (some (c.nextSlot h', d)) = [] :=
        if_neg fun heq => hs heq.symm
      have hm : (c.openSlot h').Made s ↔ c.Made s := by
        rw [c.made_openSlot]
        exact or_iff_left hs
      rw [hon]
      by_cases hmade : c.Made s
      · exact h.keeps hm (Cache.keeps_openSlot hmade hf)
      · cases h with
        | unmade _ => exact .unmade fun h => hmade (hm.1 h)
        | waiting h => exact absurd h hmade
        | held h => exact absurd h hmade
        | gone h => exact absurd h hmade
  | @calls hold call rest =>
    obtain ⟨found, hsince⟩ := hp
    by_cases hs : s = hold.slot
    · subst hs
      obtain ⟨hmem, -⟩ := hsince.tail
      obtain ⟨hl, ht⟩ := hsince.tidy_of_mem hmem
      refine h.calls hsince.made hl (Cache.made_setEntry.2 hsince.made)
        (Cache.listed_setEntry.2 hl) ?_
      show (((c.record [call.callback]).setEntry hold.slot call.entry).entry
        hold.slot).Waiting ↔ _
      rw [Cache.entry_setEntry_record_self hsince.made,
        (ht.calls call hmem).waiting, hsince.waiting]
    · exact h.keeps Cache.made_setEntry
        ((Cache.keeps_record _ s).trans (Cache.keeps_setEntry_of_ne hs _))
  | @leaves hold hev =>
    obtain ⟨found, hsince⟩ := hp
    rw [Moves.cacheAfter_leave]
    by_cases hs : s = hold.slot
    · subst hs
      rw [Deed.on_self]
      exact h.leaves hsince hev
    · rw [Deed.on_of_ne (Ne.symm hs)]
      exact h.keeps Cache.made_setEntry (Cache.keeps_setEntry_of_ne hs _)
  | @evicts hold =>
    obtain ⟨hev, found, hsince⟩ := hp
    rw [Moves.cacheAfter_leave]
    by_cases hs : s = hold.slot
    · subst hs
      refine .gone (Cache.made_setEntry.2 (Cache.made_evict.2 hsince.made)) ?_
      rw [Cache.listed_setEntry, Cache.listed_evict]
      exact fun hl => hl.2 rfl
    · rw [Deed.on_of_ne (Ne.symm hs)]
      exact h.keeps (Cache.made_setEntry.trans Cache.made_evict)
        ((Cache.keeps_evict_of_ne hs).trans (Cache.keeps_setEntry_of_ne hs _))

end Story

/-! ### Along a course -/

namespace Machine

variable {α : Type} {conduct : Conduct} {m₀ m : Machine α} {es : List Event}

/-- The story of every slot, along a course. -/
theorem Course.story (h : Course conduct m₀ es m) (h₀ : m₀.Starts conduct)
    (s : SlotId) : Story m.cache s (Event.deedsOn s es) := by
  induction h with
  | refl => exact .unmade (h₀.not_made s)
  | @step es m m' i h hs ih =>
    obtain ⟨r, p, next, mv, hi, hmv, hev, rfl⟩ := step_cases hs
    have hp := ((h.inv h₀).sound i _ hi).1
    rw [hev, Event.deedsOn_append, Event.deedsOn_events]
    exact ih.move hmv.effect hp
  | @drift es m c h hc ih =>
    exact ih.keeps (Cache.made_of_shelves hc.shelves s)
      (.of_shelves hc.shelves s)
  | stir h i ih => exact ih

/-- At any time a slot counts what its deeds say. -/
theorem Course.refCount (h : Course conduct m₀ es m) (h₀ : m₀.Starts conduct)
    (s : SlotId) :
    (m.cache.entry s).refCount = (Event.deedsOn s es).foldr Deed.refs 0 := by
  induction h with
  | refl =>
    rw [Cache.entry_of_not_made (h₀.not_made s)]
    rfl
  | @step es m m' i h hs ih =>
    obtain ⟨r, p, next, mv, hi, hmv, hev, rfl⟩ := step_cases hs
    have hp := ((h.inv h₀).sound i _ hi).1
    rw [hev, Event.deedsOn_append, Event.deedsOn_events,
      List.foldr_append, ← ih]
    exact hmv.effect.refCount hp s
  | @drift es m c h hc ih =>
    show (c.entry s).refCount = _
    rw [(Cache.Keeps.of_shelves hc.shelves s).entry]
    exact ih
  | stir h i ih => exact ih

end Machine

end ResourceHost
