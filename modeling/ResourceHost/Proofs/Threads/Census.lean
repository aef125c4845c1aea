import ResourceHost.Proofs.Cache.Listing
import ResourceHost.Proofs.Threads.Alone
import ResourceHost.Proofs.Threads.Contents

/-!
# The table at any time

Every operation writes several fields of an entry and, apart from that, the
table.  While nobody has locked a slot, its entry and the table agree all the
same: what is listed is loading or loaded, and what is not listed is gone.  So
an operation on what is there never lacks the kind of its type, and while nobody
is amid an operation the table can be counted.
-/

namespace ResourceHost

/-! ### Entries and the table -/

/-- What an entry and the table have to do with each other, field by field. -/
structure Entry.Regular (e : Entry) (listed : Prop) : Prop where
  state : e.state = .loading ∨ e.state = .online ∨ e.state = .offline ∨
    e.state = .unloaded
  loading : e.state = .loading → listed ∧ e.held = none ∧ e.refCount = 0
  loaded : e.state = .online ∨ e.state = .offline →
    listed ∧ e.held.isSome ∧ e.failure = none
  unloaded : e.state = .unloaded → ¬ listed ∧ e.held = none ∧ e.refCount = 0

theorem Entry.Settled.regular {e : Entry} {listed : Prop}
    (he : e.Settled listed) : e.Regular listed := by
  cases he with
  | loading hl hf =>
    subst hf
    exact ⟨.inl rfl, fun _ => ⟨hl, rfl, rfl⟩, nofun, nofun⟩
  | loaded hl hd =>
    refine ⟨?_, ?_, fun _ => ⟨hl, hd.held, hd.failure⟩, ?_⟩
    · rcases hd.state with h | h
      · exact .inr (.inl h)
      · exact .inr (.inr (.inl h))
    · intro hs
      rcases hd.state with h | h <;> cases hs.symm.trans h
    · intro hs
      rcases hd.state with h | h <;> cases hs.symm.trans h
  | gone hl hg =>
    refine ⟨.inr (.inr (.inr hg.state)), ?_, ?_,
      fun _ => ⟨hl, hg.held, hg.refCount⟩⟩
    · intro hs
      cases hs.symm.trans hg.state
    · rintro (hs | hs) <;> cases hs.symm.trans hg.state

/-- While nobody is amid a request, a resource can be had exactly if it is
online. -/
theorem Cache.Calm.get_iff_online {c : Cache} (hc : c.Calm) (h : Handle) :
    (∃ r, ((Cache.get h).run c).1 = .ok r) ↔
      ((Cache.state h).run c).1 = .online := by
  rw [hc.run_get, hc.run_state]
  cases hl : c.lookup? h with
  | none => simp
  | some e =>
    have hd := (hc.loaded h e hl).1
    constructor
    · rintro ⟨r, hr⟩
      exact (Entry.online_of_get hr).1
    · intro hs
      exact hd.get_of_online hs h

/-! ### Along a course -/

/-- Every move changes shelves only. -/
theorem Effect.tabular {r : Request} {c : Cache} {p : Point r} {mv : Move r}
    {d : Option (SlotId × Deed)} (he : Effect c p mv d) (hc : c.Tabular) :
    (mv.cacheAfter c).Tabular := by
  cases he with
  | still hs =>
    rw [Cache.Tabular, hs]
    exact hc
  | opens hr hf hq hl hd => exact hc.openSlot _
  | calls => exact Cache.Tabular.setEntry (c := c.record _) hc _ _
  | leaves hev =>
    rw [Moves.cacheAfter_leave]
    exact hc.setEntry _ _
  | evicts =>
    rw [Moves.cacheAfter_leave]
    exact (hc.evict _).setEntry _ _

namespace Machine

variable {α : Type} {conduct : Conduct} {m₀ m : Machine α} {es : List Event}

theorem Course.tabular (hr : Course conduct m₀ es m) (h₀ : m₀.Starts conduct) :
    m.cache.Tabular := by
  induction hr with
  | refl =>
    rw [Cache.Tabular, h₀.shelves]
    exact List.nodup_nil
  | step hr hs ih =>
    obtain ⟨r, p, next, mv, hi, hmv, -, rfl⟩ := step_cases hs
    exact hmv.effect.tabular ih
  | drift hr hc ih =>
    rw [Cache.Tabular, hc.shelves]
    exact ih
  | stir hr i ih => exact ih

/-- An operation on an entry fails for a missing resource, or with refused
bytes: its type is known. -/
theorem Course.failure_of_visit (hr : Course conduct m₀ es m)
    (h₀ : m₀.Starts conduct) {i : Nat} {h : Handle} {v : Visit} {a : v.Reply}
    (hmem : Event.answered i (.visit h v) a ∈ es) {f : Failure}
    (hf : v.failure? a = some f) :
    f = .notLoaded h ∨ ∃ cause, f = .reload h cause := by
  -- Nothing need be known of what loads come to.
  have hgranted := (hr.stores (P := fun _ _ => True) h₀
    ⟨fun _ _ => trivial, fun _ _ _ _ _ _ => trivial, fun _ _ _ _ _ _ => trivial⟩
    (fun _ _ _ _ _ _ _ _ => trivial) fun _ _ => trivial).2.2 i
    (.visit h v) a hmem
  exact hgranted.1 f hf

/-- However the threads interleave: each handle is listed once, with one slot; a
slot that nobody has locked agrees with the table, field by field; whatever is
listed is of a registered type, so no operation on an entry is ever answered
that a type is not registered.  And while nobody is amid a request, a resource
can be had exactly if it is online, and the statistics count each entry of the
table, none of them as loading. -/
theorem table_invariant (h₀ : m₀.Starts conduct) (hr : Course conduct m₀ es m) :
    (m.cache.handles.Nodup ∧ (∀ h, h ∈ m.cache.handles ↔
        m.cache.isListed h = true) ∧
      ∀ s s', m.cache.Listed s → m.cache.Listed s' → s.handle = s'.handle →
        s = s') ∧
    (∀ s, m.free.slot s = true → (m.cache.entry s).Regular (m.cache.Listed s)) ∧
    (∀ s, m.cache.Listed s → m.cache.Registered s.handle.type) ∧
    (∀ (i : Nat) (h : Handle) (v : Visit) (a : v.Reply) (t : TypeId),
      Event.answered i (.visit h v) a ∈ es →
        v.failure? a ≠ some (.unknownType t)) ∧
    ((∀ t ∈ m.threads, t.atRest = true) →
      (∀ h, (∃ r, ((Cache.get h).run m.cache).1 = .ok r) ↔
        ((Cache.state h).run m.cache).1 = .online) ∧
      ((Cache.stats.run m.cache).1).total = m.cache.handles.length ∧
      ((Cache.stats.run m.cache).1).loading = 0) := by
  have hinv := hr.inv h₀
  refine ⟨⟨?_, fun h => Cache.mem_handles_iff, ?_⟩, ?_, ?_, ?_, ?_⟩
  · exact Cache.nodup_handles (hr.tabular h₀)
  · intro s s' hl hl' hh
    exact hl.unique hl' hh
  · intro s hf
    exact (hinv.settled s hf).regular
  · intro s hl
    exact hinv.orderly.typed s (hinv.orderly.made s hl)
  · intro i h v a t hmem hf
    rcases hr.failure_of_visit h₀ hmem hf with heq | ⟨cause, heq⟩ <;> cases heq
  · intro hrest
    have hcalm := hr.calm h₀ hrest
    refine ⟨hcalm.get_iff_online, Cache.run_stats fun s hl => ?_⟩
    exact (hcalm.loaded s.handle _
      (Cache.lookup?_of_made hl (hcalm.made s hl))).1.state

/-- Takes what is theirs offline. -/
def offliner : Program (Except Failure Unit) := Cache.offline theirs

/-- One caller has loaded a resource and another has taken it offline: it is the
one entry that the statistics count, and nobody can have it. -/
theorem table_invariant_of_callers :
    (callers [loader, offliner]).Starts rawConduct ∧
      ∃ (es : List Event) (m : Machine (Except Failure Unit)),
        Course rawConduct (callers [loader, offliner]) es m ∧
          (m.cache.entry ⟨theirs, 0⟩).Regular (m.cache.Listed ⟨theirs, 0⟩) ∧
          ((Cache.state theirs).run m.cache).1 = .offline ∧
          (¬ ∃ r, ((Cache.get theirs).run m.cache).1 = .ok r) ∧
          ((Cache.stats.run m.cache).1).total = 1 := by
  have h₀ : (callers [loader, offliner]).Starts rawConduct := by
    refine starts_callers fun p hp => ?_
    have hcases : p = loader ∨ p = offliner := by simpa using hp
    rcases hcases with rfl | rfl
    · exact Cache.load_honest _ _
    · exact Cache.offline_honest _
  have hrun := exists_course rawConduct (callers [loader, offliner])
    (List.replicate 8 1 ++ List.replicate 11 0)
    (P := fun _ m => m.free.slot ⟨theirs, 0⟩ = true ∧
      m.cache.handles = [theirs] ∧
      ((Cache.state theirs).run m.cache).1 = .offline ∧
      ∀ t ∈ m.threads, t.atRest = true)
    (by decide +kernel)
  obtain ⟨es, m, hrun, hP⟩ := hrun
  obtain ⟨hfree, hhandles, hstate, hrest⟩ := of_decide_eq_true hP
  have hr := hrun
  obtain ⟨-, hregular, -, -, hquiet⟩ := table_invariant h₀ hr
  obtain ⟨hget, htotal, -⟩ := hquiet hrest
  refine ⟨h₀, es, m, hr, hregular _ hfree, hstate, ?_, ?_⟩
  · rw [hget, hstate]
    exact nofun
  · rw [htotal, hhandles]
    rfl

end Machine

end ResourceHost
