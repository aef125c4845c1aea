import ResourceHost.Proofs.Threads.Outcomes

/-!
# What becomes of the load of a slot

The load that a slot was made for is under way or has succeeded while the table
lists the slot; once it does not, the load has failed, and the entry says why,
or what was loaded has been unloaded, and the entry tells of no failure.  After
that nothing is done to the entry any more.
-/

namespace ResourceHost

/-- Why a load of a handle fails: there are no bytes, or a kind refuses them. -/
inductive Conduct.LoadFails (conduct : Conduct) (h : Handle) :
    Failure → Prop where
  | noBytes (why : SourceFailure) : conduct.LoadFails h (.noBytes h why)
  | refused {k : Kind} {bytes : List UInt8} {cause : Failure}
      (hk : conduct h.type k) (hload : k.load h bytes = .error cause) :
      conduct.LoadFails h (.loader h cause)

/-- An outcome that is a failure of a load. -/
def Conduct.Fails (conduct : Conduct) (s : SlotId)
    (outcome : Except Failure Representation) : Prop :=
  ∀ f, outcome = .error f → conduct.LoadFails s.handle f

theorem Conduct.yields_fails (conduct : Conduct) :
    conduct.Yields conduct.Fails where
  unread s why f hf := by
    cases hf
    exact .noBytes why
  loaded s k bytes content hk hload f hf := by cases hf
  rejected s k bytes cause hk hload f hf := by
    cases hf
    exact .refused hk hload

/-! ### The failure that an entry tells of -/

namespace Errand

variable {r : Request} {errand : Errand r} {s : SlotId} {e : Entry}
  {sec : Section r.Reply}

/-- While the callbacks of a section run, the entry tells what it told
before. -/
theorem failure_of_call (hs : errand.section? s e = some sec) {call : Call}
    (hc : call ∈ sec.calls) : call.entry.failure = e.failure := by
  cases errand with
  | settle outcome =>
    cases outcome with
    | ok x =>
      cases hs
      cases List.mem_singleton.1 hc
      rfl
    | error f =>
      cases hs
      cases hc
  | join => rcases join_cases hs with rfl | ⟨f, rfl⟩ <;> cases hc
  | introduce =>
    cases hs
    cases List.mem_singleton.1 hc
    rfl
  | visit kind? =>
    cases hs
    obtain ⟨-, he | ⟨he, -⟩ | he⟩ := Visit.mem_calls_inside hc <;> rw [he]
  | look =>
    cases hs
    cases hc

theorem failure_of_visit (h : Handle) (v : Visit) (kind? : Option Kind) :
    (v.inside h kind? e).entry.failure = e.failure := by
  cases v with
  | offline =>
    simp only [Visit.inside, Entry.takeOffline]
    split
    · split <;> rfl
    all_goals rfl
  | online =>
    simp only [Visit.inside, Entry.bringOnline]
    split
    · rfl
    · split <;> rfl
    · rfl
  | reload bytes =>
    simp only [Visit.inside, Entry.reload]
    split
    · rfl
    · split
      · simp only [Entry.replace]
        split <;> rfl
      · simp only [Entry.replace]
        split <;> rfl
      · rfl
  | unload =>
    simp only [Visit.inside, Entry.unload]
    split
    · rfl
    · split <;> rfl
  | _ => rfl

/-- Only the end of a load that failed makes an entry tell of a failure, which
is the one that the load came to. -/
theorem failure_after (hs : errand.section? s e = some sec) :
    errand.deed? sec.answer sec.evicts ≠ some .failed ∧
      sec.entry.failure = e.failure ∨
      errand.deed? sec.answer sec.evicts = some .failed ∧ errand.owns = true ∧
        ∃ f, sec.entry.failure = some f ∧ ∀ P, errand.Bears P s →
        P s (.error f) := by
  cases errand with
  | settle outcome =>
    cases outcome with
    | ok x =>
      cases hs
      exact .inl ⟨nofun, rfl⟩
    | error f =>
      cases hs
      exact .inr ⟨rfl, rfl, f, rfl, fun P hP => hP⟩
  | join => rcases join_cases hs with rfl | ⟨f, rfl⟩ <;> exact .inl ⟨nofun, rfl⟩
  | introduce =>
    cases hs
    exact .inl ⟨nofun, rfl⟩
  | @visit h v kind? =>
    cases hs
    refine .inl ⟨?_, failure_of_visit h v kind?⟩
    cases v <;> cases (Visit.inside h kind? e _).evicts <;> exact nofun
  | look =>
    cases hs
    exact .inl ⟨nofun, rfl⟩

end Errand

/-- A section leaves to its end what the entry tells of a failure. -/
theorem Hold.Since.failure {conduct : Conduct} {c : Cache} {r : Request}
    {hold : Hold r} {found : Entry} {calls : List Call}
    (h : hold.Since conduct c found calls) :
    (c.entry hold.slot).failure = found.failure := by
  rcases h.stands with ⟨-, he⟩ | ⟨call, hc, he⟩
  · rw [he]
  · rw [he]
    exact Errand.failure_of_call h.does hc

/-! ### The fate of a slot -/

/-- What has become of a slot, in view of what was done to it. -/
inductive Fate (conduct : Conduct) (c : Cache) (s : SlotId) :
    List Deed → Prop where
  | unmade (hm : ¬ c.Made s) : Fate conduct c s []
  | standing {ds : List Deed} (hm : c.Made s) (hl : c.Listed s)
      (hf : (c.entry s).failure = none) (hds : .failed ∉ ds ∧ .unloaded ∉ ds) :
      Fate conduct c s ds
  | failed {ds : List Deed} {f : Failure} (hm : c.Made s) (hl : ¬ c.Listed s)
      (hf : (c.entry s).failure = some f) (hw : conduct.LoadFails s.handle f)
      (hds : .failed ∈ ds ∧ .settled ∉ ds) : Fate conduct c s ds
  | unloaded {ds : List Deed} (hm : c.Made s) (hl : ¬ c.Listed s)
      (hf : (c.entry s).failure = none) (hds : .unloaded ∈ ds ∧ .settled ∈ ds) :
      Fate conduct c s ds

namespace Fate

variable {conduct : Conduct} {c c' : Cache} {s : SlotId} {ds : List Deed}

theorem keeps (h : Fate conduct c s ds) (hm : c'.Made s ↔ c.Made s)
    (hk : c.Keeps c' s) : Fate conduct c' s ds := by
  cases h with
  | unmade hn => exact .unmade fun h => hn (hm.1 h)
  | standing hmade hl hf hds =>
    rw [← hk.entry] at hf
    exact .standing (hm.2 hmade) (hk.listed.2 hl) hf hds
  | failed hmade hl hf hw hds =>
    rw [← hk.entry] at hf
    exact .failed (hm.2 hmade) (fun h => hl (hk.listed.1 h)) hf hw hds
  | unloaded hmade hl hf hds =>
    rw [← hk.entry] at hf
    exact .unloaded (hm.2 hmade) (fun h => hl (hk.listed.1 h)) hf hds

theorem of_listed (h : Fate conduct c s ds) (hm : c.Made s) (hl : c.Listed s) :
    (c.entry s).failure = none ∧ .failed ∉ ds ∧ .unloaded ∉ ds := by
  cases h with
  | unmade hn => exact absurd hm hn
  | standing _ _ hf hds => exact ⟨hf, hds⟩
  | failed _ hn => exact absurd hl hn
  | unloaded _ hn => exact absurd hl hn

theorem of_not_listed (h : Fate conduct c s ds) (hm : c.Made s)
    (hl : ¬ c.Listed s) :
    (∃ f, (c.entry s).failure = some f ∧ conduct.LoadFails s.handle f ∧
      .failed ∈ ds ∧
      .settled ∉ ds) ∨
    (c.entry s).failure = none ∧ .unloaded ∈ ds ∧ .settled ∈ ds := by
  cases h with
  | unmade hn => exact absurd hm hn
  | standing _ hl' => exact absurd hl' hl
  | failed _ _ hf hw hds => exact .inl ⟨_, hf, hw, hds⟩
  | unloaded _ _ hf hds => exact .inr ⟨hf, hds⟩

theorem not_listed_of_failure {f : Failure} (h : Fate conduct c s ds)
    (hm : c.Made s) (hf : (c.entry s).failure = some f) : ¬ c.Listed s := by
  intro hl
  cases (h.of_listed hm hl).1.symm.trans hf

theorem failure_of_settled (h : Fate conduct c s ds) (hd : .settled ∈ ds) :
    (c.entry s).failure = none := by
  cases h with
  | unmade hn => cases hd
  | standing _ _ hf => exact hf
  | failed _ _ _ _ hds => exact absurd hd hds.2
  | unloaded _ _ hf => exact hf

variable {r : Request} {hold : Hold r} {found : Entry}

/-- Whoever lets a slot go that it does not evict leaves its fate open, or as it
was. -/
theorem leaves (h : Fate conduct c hold.slot ds)
    (hs : hold.Since conduct c found []) (hev : hold.sec.evicts = false) :
    Fate conduct (c.setEntry hold.slot hold.sec.entry) hold.slot
      (hold.deed?.toList ++ ds) := by
  have hno : hold.deed? ≠ some .failed ∧ hold.deed? ≠ some .unloaded := by
    have hiff := Errand.evicts_iff_deed? hs.does
    rw [← Hold.deed?, hev] at hiff
    exact ⟨fun hd => by simpa using hiff.2 (.inl hd),
      fun hd => by simpa using hiff.2 (.inr hd)⟩
  have hfailure : hold.sec.entry.failure = (c.entry hold.slot).failure := by
    rcases Errand.failure_after hs.does with ⟨-, hf⟩ | ⟨hd, -⟩
    · exact hf.trans hs.failure.symm
    · exact absurd hd hno.1
  have hentry : ((c.setEntry hold.slot hold.sec.entry).entry
        hold.slot).failure =
      (c.entry hold.slot).failure := by
    rw [Cache.entry_setEntry_self hs.made, hfailure]
  have hmade : (c.setEntry hold.slot hold.sec.entry).Made hold.slot :=
    Cache.made_setEntry.2 hs.made
  have hlisted : (c.setEntry hold.slot hold.sec.entry).Listed hold.slot ↔
      c.Listed hold.slot :=
    Cache.listed_setEntry
  -- A slot that is not listed holds nothing, so at most a release finds nothing
  -- to drop.
  have hidle : ¬ c.Listed hold.slot → .settled ∉ hold.deed?.toList := by
    intro hl hmem
    rcases hs.idle_or_tidy with ⟨ho, hb, -⟩ | ⟨hl', -⟩
    · cases Errand.deed?_of_blank ho hb hs.does _ (Option.mem_toList.1 hmem)
    · exact hl hl'
  cases h with
  | unmade hn => exact absurd hs.made hn
  | standing _ hl hf hds =>
    refine .standing hmade (hlisted.2 hl) (hentry.trans hf) ?_
    simp [hno, hds]
  | failed _ hl hf hw hds =>
    refine .failed hmade (fun hl' => hl (hlisted.1 hl')) (hentry.trans hf) hw ?_
    exact ⟨List.mem_append_right _ hds.1,
      fun hmem => (List.mem_append.1 hmem).elim (hidle hl) hds.2⟩
  | unloaded _ hl hf hds =>
    refine .unloaded hmade (fun hl' => hl (hlisted.1 hl')) (hentry.trans hf) ?_
    exact ⟨List.mem_append_right _ hds.1, List.mem_append_right _ hds.2⟩

/-- Whoever evicts a slot ends a load that failed, or unloads what was
loaded. -/
theorem evicts (h : Fate conduct c hold.slot ds) (hst : Story c hold.slot ds)
    (hs : hold.Since conduct c found []) (hev : hold.sec.evicts = true)
    (hb : hold.errand.Bears conduct.Fails hold.slot) :
    Fate conduct ((c.evict hold.slot).setEntry hold.slot hold.sec.entry)
      hold.slot
      (hold.deed?.toList ++ ds) := by
  have hl := hs.listed_of_evicts hev
  have hmade : ((c.evict hold.slot).setEntry hold.slot hold.sec.entry).Made
      hold.slot :=
    Cache.made_setEntry.2 (Cache.made_evict.2 hs.made)
  have hgone : ¬ ((c.evict hold.slot).setEntry hold.slot hold.sec.entry).Listed
      hold.slot := by
    rw [Cache.listed_setEntry, Cache.listed_evict]
    exact fun hl' => hl'.2 rfl
  have hentry : ((c.evict hold.slot).setEntry hold.slot hold.sec.entry).entry
        hold.slot =
      hold.sec.entry := Cache.entry_setEntry_self (Cache.made_evict.2 hs.made) _
  have hstory := hst.listed_cases hs.made hl
  rw [hs.waiting] at hstory
  rcases Errand.failure_after hs.does with ⟨hd, hf⟩ | ⟨hd, ho, f, hf, hP⟩
  · -- The entry tells of nothing, and what was there had been loaded.
    have hdeed : hold.deed? = some .unloaded := by
      exact ((Errand.evicts_iff_deed? hs.does).1 hev).resolve_left hd
    have hnone : hold.sec.entry.failure = none :=
      hf.trans (hs.failure.symm.trans (h.of_listed hs.made hl).1)
    have hwait : ¬ found.Waiting := by
      cases hs.settled with
      | loading _ he =>
        have ho : hold.errand.owns = false := by
          cases ho : hold.errand.owns with
          | false => rfl
          | true =>
            obtain ⟨s', errand, sec⟩ := hold
            cases errand with
            | settle outcome => cases outcome <;> cases hdeed
            | introduce => cases hdeed
            | _ => cases ho
        have hidle := Errand.idle_of_blank ho (.inl he) hs.does
        exact absurd (hidle.evicts.symm.trans hev) Bool.false_ne_true
      | loaded _ he => exact he.not_waiting
      | gone hn _ => exact absurd hl hn
    rcases hstory with ⟨hw, -⟩ | ⟨-, later, earlier, rfl, -, -⟩
    · exact absurd hw hwait
    · refine .unloaded hmade hgone (by rw [hentry, hnone]) ?_
      simp [hdeed]
  · have hdeed : hold.deed? = some .failed := hd
    rcases hstory with ⟨-, hearly⟩ | ⟨hw, -⟩
    · refine .failed hmade hgone (by rw [hentry, hf]) (hP _ hb f rfl) ?_
      rw [hdeed]
      refine ⟨List.mem_append_left _ (List.mem_singleton.2 rfl), fun hmem => ?_⟩
      rcases List.mem_append.1 hmem with hmem | hmem
      · cases List.mem_singleton.1 hmem
      · rcases hearly _ hmem with heq | heq | heq <;> cases heq
    · rw [hs.owns ho] at hw
      exact absurd Entry.fresh_waiting hw

/-- Every move goes on with the fate of every slot, by its deed. -/
theorem move {p : Point r} {mv : Move r} {d : Option (SlotId × Deed)}
    (h : Fate conduct c s ds) (hst : Story c s ds) (he : Effect c p mv d)
    (hp : p.Sound conduct c) (hb : p.Bears conduct.Fails) :
    Fate conduct (mv.cacheAfter c) s (Deed.on s d ++ ds) := by
  cases he with
  | still hc => exact h.keeps (Cache.made_of_shelves hc s) (.of_shelves hc s)
  | @opens h' q d hr hf hq hl hd =>
    by_cases hs : s = c.nextSlot h'
    · subst hs
      cases h with
      | unmade hm =>
        rw [Deed.on, if_pos rfl]
        refine .standing (c.made_openSlot.2 (.inr rfl))
          (c.listed_openSlot_nextSlot h') ?_ ?_
        · exact congrArg Entry.failure (c.entry_openSlot_nextSlot h')
        · rcases hd with rfl | rfl <;> simp
      | standing hm => exact absurd hm (c.not_made_nextSlot h')
      | failed hm => exact absurd hm (c.not_made_nextSlot h')
      | unloaded hm => exact absurd hm (c.not_made_nextSlot h')
    · have hon : Deed.on s (some (c.nextSlot h', d)) = [] :=
        if_neg fun heq => hs heq.symm
      have hm : (c.openSlot h').Made s ↔ c.Made s := by
        rw [c.made_openSlot]
        exact or_iff_left hs
      rw [hon]
      by_cases hmade : c.Made s
      · exact h.keeps hm (Cache.keeps_openSlot hmade hf)
      · cases h with
        | unmade _ => exact .unmade fun h => hmade (hm.1 h)
        | standing h => exact absurd h hmade
        | failed h => exact absurd h hmade
        | unloaded h => exact absurd h hmade
  | @calls hold call rest =>
    obtain ⟨found, hsince⟩ := hp
    by_cases hs : s = hold.slot
    · subst hs
      obtain ⟨hmem, -⟩ := hsince.tail
      have hl := (hsince.tidy_of_mem hmem).1
      obtain ⟨hf, hds⟩ := h.of_listed hsince.made hl
      refine .standing (Cache.made_setEntry.2 hsince.made)
        (Cache.listed_setEntry.2 hl) ?_ hds
      show (((c.record [call.callback]).setEntry hold.slot call.entry).entry
        hold.slot).failure = _
      rw [Cache.entry_setEntry_record_self hsince.made,
        Errand.failure_of_call hsince.does hmem, ← hsince.failure, hf]
    · exact h.keeps Cache.made_setEntry
        ((Cache.keeps_record _ s).trans (Cache.keeps_setEntry_of_ne hs _))
  | @leaves hold hev =>
    obtain ⟨found, hsince⟩ := hp
    rw [Moves.cacheAfter_leave]
    by_cases hs : s = hold.slot
    · subst hs
      rw [Deed.on_self]
      exact h.leaves hsince hev
    · rw [Deed.on_of_ne (Ne.symm hs)]
      exact h.keeps Cache.made_setEntry (Cache.keeps_setEntry_of_ne hs _)
  | @evicts hold =>
    obtain ⟨hev, found, hsince⟩ := hp
    rw [Moves.cacheAfter_leave]
    by_cases hs : s = hold.slot
    · subst hs
      rw [Deed.on_self]
      exact h.evicts hst hsince hev hb
    · rw [Deed.on_of_ne (Ne.symm hs)]
      exact h.keeps (Cache.made_setEntry.trans Cache.made_evict)
        ((Cache.keeps_evict_of_ne hs).trans (Cache.keeps_setEntry_of_ne hs _))

end Fate

/-! ### Along a course -/

namespace Machine

variable {α : Type} {conduct : Conduct} {m₀ m m' : Machine α}
  {es es' : List Event} {s : SlotId}

/-- The fate of every slot, along a course. -/
theorem Course.fate (h : Course conduct m₀ es m) (h₀ : m₀.Starts conduct)
    (s : SlotId) : Fate conduct m.cache s (Event.deedsOn s es) := by
  have hbears : ∀ {es m}, Course conduct m₀ es m →
      ∀ t ∈ m.threads, t.Bears conduct.Fails :=
    fun h => h.bears h₀ conduct.yields_fails fun x _ f hf => by cases hf
  induction h with
  | refl => exact .unmade (h₀.not_made s)
  | step h hs ih =>
    obtain ⟨r, p, next, mv, hi, hmv, hev, rfl⟩ := step_cases hs
    rw [hev, Event.deedsOn_append, Event.deedsOn_events]
    exact ih.move (h.story h₀ s) hmv.effect ((h.inv h₀).sound _ _ hi).1
      (hbears h _ (List.mem_of_getElem? hi))
  | drift h hc ih =>
    exact ih.keeps (Cache.made_of_shelves hc.shelves s)
      (.of_shelves hc.shelves s)
  | stir h i ih => exact ih

/-- A slot that is not listed any more is gone, whoever has locked it. -/
theorem Inv.gone_of_not_listed (h : m.Inv conduct) (hl : ¬ m.cache.Listed s) :
    (m.cache.entry s).Gone := by
  by_cases hf : m.free.slot s = true
  · exact (h.settled s hf).gone_of_not_listed hl
  · obtain ⟨i, t, hi, ht⟩ := exists_slot_of_not_free hf
    cases t with
    | finished a => cases ht
    | busy r p next =>
      have hp := (h.sound i _ hi).1
      have hhold : p.hold? = some s → (m.cache.entry s).Gone := by
        intro hh
        obtain ⟨hold, found, calls, rfl, -, hs⟩ := hp.since hh
        rcases hs.stands with ⟨-, he⟩ | ⟨call, hc, -⟩
        · rw [he]
          exact hs.settled.gone_of_not_listed hl
        · exact absurd (hs.tidy_of_mem hc).1 hl
      cases p with
      | consult s' errand locked =>
        cases locked with
        | false => cases ht
        | true =>
          cases ht
          exact (hp.2.2.2 rfl).gone_of_not_listed hl
      | consulting s' errand locked =>
        cases locked with
        | false => cases ht
        | true =>
          cases ht
          exact (hp.2.2.2 rfl).gone_of_not_listed hl
      | _ => exact hhold ht

/-- Nothing is done to a slot any more that has left the table. -/
theorem Inv.keeps_gone (h : m.Inv conduct) {i : Nat} (hs : m.step i = some m')
    (hm : m.cache.Made s) (hl : ¬ m.cache.Listed s) :
    m.cache.Keeps m'.cache s := by
  obtain ⟨r, p, next, mv, hi, hmv, -, rfl⟩ := step_cases hs
  refine hmv.effect.keeps_of_blank (h.sound i _ hi).1 hm
    (h.gone_of_not_listed hl).blank ?_
  intro ho
  exact hl (h.listed_of_owner? hi ho)

theorem Course.made (hr : Course conduct m es m') (hm : m.cache.Made s) :
    m'.cache.Made s := by
  induction hr with
  | refl => exact hm
  | step hr hs ih =>
    obtain ⟨r, p, next, mv, hi, hmv, -, rfl⟩ := step_cases hs
    exact hmv.effect.made ih
  | drift hr hc ih => exact (Cache.made_of_shelves hc.shelves s).2 ih
  | stir hr i ih => exact ih

theorem Course.keeps_gone (hr : Course conduct m es m') (h : m.Inv conduct)
    (hm : m.cache.Made s) (hl : ¬ m.cache.Listed s) :
    m.cache.Keeps m'.cache s := by
  induction hr with
  | refl => exact ⟨rfl, Iff.rfl⟩
  | step hr hs ih =>
    exact ih.trans ((hr.keeps h).keeps_gone hs (hr.made hm) fun hl' => hl
      (ih.listed.1 hl'))
  | drift hr hc ih => exact ih.trans (.of_shelves hc.shelves s)
  | stir hr i ih => exact ih

end Machine

end ResourceHost
