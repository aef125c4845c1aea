import ResourceHost.Proofs.Cache.Refresh
import ResourceHost.Proofs.Cache.Swaps

/-!
# One reload

To reload a resource that is loaded is all or nothing.  If its kind refuses the
bytes, nothing comes of it but the callbacks that were made: the entry is the
one it was.  If not, the entry comes online with what the kind made of them, and
nothing else changes.
-/

namespace ResourceHost

/-! ### The section of a reload -/

namespace Entry

/-- The entry with another representation, online. -/
def holding (e : Entry) (new : Representation) : Entry :=
  { e with state := .online, held := some new }

/-- The callbacks of a reload, with what came of it: the entry is taken offline
first, and comes online with the new, or with the old if it was online with
it. -/
def reloadCalls (e : Entry) (k : Kind) (h : Handle) (old : Representation)
    (bytes : List UInt8) (outcome : Except Failure Representation) :
    List Callback :=
  e.ifOnline (.offline k h old) ++ .reload k h old bytes outcome ::
    match outcome with
    | .ok new => [.online k h new]
    | .error _ => e.ifOnline (.online k h old)

variable {e : Entry} {h : Handle} {k : Kind} {old : Representation}
  {bytes : List UInt8}

theorem Loaded.holding (he : e.Loaded) (new : Representation) :
    (e.holding new).Loaded :=
  ⟨.inl rfl, rfl, he.failure⟩

theorem Loaded.reload_eq_replace (he : e.Loaded) (hold : e.held = some old) :
    e.reload h (some k) bytes = e.replace h k old bytes := by
  rcases he.state with hs | hs <;> simp only [reload, hs, hold]

/-- An entry holds after a reload what it held, or the object after it. -/
theorem held_reload (e : Entry) (h : Handle) (kind? : Option Kind)
    (bytes : List UInt8) :
    (e.reload h kind? bytes).entry.held = e.held ∨
      ∃ old content, e.held = some old ∧
      (e.reload h kind? bytes).entry.held = some (nextObject old content) := by
  have hreplace : ∀ (k : Kind) (old : Representation), e.held = some old →
      (e.replace h k old bytes).entry.held = e.held ∨
        ∃ old' content, e.held = some old' ∧
        (e.replace h k old bytes).entry.held =
          some (nextObject old' content) := by
    intro k old hold
    cases hr : k.reload h old.content bytes with
    | ok content => exact .inr ⟨old, content, hold, by simp only [replace, hr]⟩
    | error f => exact .inl (by simp only [replace, hr])
  cases kind? with
  | none => exact .inl rfl
  | some k =>
    unfold reload
    dsimp only
    split
    · rename_i hold
      exact hreplace k _ hold
    · rename_i hold
      exact hreplace k _ hold
    · exact .inl rfl

/-- Every callback of a reload is about its handle. -/
theorem handle_of_mem_reloadCalls {outcome : Except Failure Representation}
    {cb : Callback} (hcb : cb ∈ e.reloadCalls k h old bytes outcome) :
    cb.handle = h := by
  rcases List.mem_append.1 hcb with hcb | hcb
  · rw [handle_of_mem_ifOnline hcb]
    rfl
  · rcases List.mem_cons.1 hcb with rfl | hcb
    · rfl
    · cases outcome with
      | ok new =>
        rw [List.mem_singleton.1 hcb]
        rfl
      | error f =>
        rw [handle_of_mem_ifOnline hcb]
        rfl

end Entry

/-! ### A reload of a cache -/

namespace Cache

variable {c : Cache} {h : Handle} {s : SlotId} {e : Entry} {k : Kind}
  {old x : Representation} {bytes : List UInt8}

/-- A section that leaves the entry as it found it is seen in the log only. -/
theorem carryOut_of_entry {α : Type} (hm : c.Made s) {sec : Section α}
    (he : sec.entry = c.entry s) (hev : sec.evicts = false) :
    c.carryOut s sec = c.record (sec.calls.map Call.callback) := by
  rw [carryOut, hev, he]
  exact setEntry_entry (c := c.record (sec.calls.map Call.callback)) hm

theorem run_reload_of_none (hf : c.find? h = none) (bytes : List UInt8) :
    (reload h bytes).run c = (.error (.notLoaded h), c) := by
  show c.visit h (.reload bytes) = _
  rw [visit, hf]
  rfl

theorem run_reload_of_find? (hs : c.find? h = some s) (bytes : List UInt8) :
    (reload h bytes).run c =
      (((c.entry s).reload h (c.kind? h.type) bytes).answer,
        c.carryOut s ((c.entry s).reload h (c.kind? h.type) bytes)) := by
  show c.visit h (.reload bytes) = _
  rw [visit, hs]
  rfl

/-- An entry that is loading is not touched. -/
theorem run_reload_of_fresh (hs : c.find? h = some s) (hm : c.Made s)
    (he : c.entry s = Entry.fresh) (hk : c.kind? h.type = some k)
    (bytes : List UInt8) :
    (reload h bytes).run c = (.error (.notLoaded h), c) := by
  have hsec : (c.entry s).reload h (some k) bytes =
      (c.entry s).answering (.error (.notLoaded h)) := by
    rw [he]
    rfl
  rw [run_reload_of_find? hs, hk, hsec, carryOut_of_answering hm]
  rfl

namespace Ready

/-- A reload that is refused is seen in the log only. -/
theorem run_reload_of_error (hr : c.Ready h) (hl : c.lookup? h = some e)
    (hold : e.held = some old) (hk : c.kind? h.type = some k) {f : Failure}
    (hf : k.reload h old.content bytes = .error f) :
    (reload h bytes).run c =
      (.error (.reload h f),
        c.record (e.reloadCalls k h old bytes (.error f))) := by
  obtain ⟨s, hs, hm, rfl⟩ := hr.exists_slot hl
  have hd := (hr.loaded _ hl).1
  have hentry : ((c.entry s).replace h k old bytes).entry = c.entry s := by
    simp only [Entry.replace, hf]
  have hevicts : ((c.entry s).replace h k old bytes).evicts = false := by
    simp only [Entry.replace, hf]
  have hcalls : ((c.entry s).replace h k old bytes).calls.map Call.callback =
      (c.entry s).reloadCalls k h old bytes (.error f) := by
    rcases hd.state with hst | hst <;>
      simp [Entry.replace, Entry.reloadCalls, Entry.ifOnline, hf, hst]
  rw [run_reload_of_find? hs, hk, hd.reload_eq_replace hold,
    carryOut_of_entry hm hentry hevicts, hcalls]
  simp only [Entry.replace, hf]

/-- A reload that succeeds puts the new representation into the entry. -/
theorem run_reload_of_ok (hr : c.Ready h) (hl : c.lookup? h = some e)
    (hold : e.held = some old) (hk : c.kind? h.type = some k)
    {content : Content} (hc : k.reload h old.content bytes = .ok content) :
    ∃ c', (reload h bytes).run c = (.ok (), c') ∧
      c.Swaps h (some (e.holding (Entry.nextObject old content)))
        (e.reloadCalls k h old bytes (.ok (Entry.nextObject old content)))
          c' := by
  obtain ⟨s, hs, hm, rfl⟩ := hr.exists_slot hl
  have hd := (hr.loaded _ hl).1
  have hcalls : ((c.entry s).replace h k old bytes).calls.map Call.callback =
      (c.entry s).reloadCalls k h old bytes
        (.ok (Entry.nextObject old content)) := by
    rcases hd.state with hst | hst <;>
      simp [Entry.replace, Entry.reloadCalls, Entry.ifOnline, hc, hst]
  have hswaps := swaps_carryOut hs hm ((c.entry s).replace h k old bytes)
  rw [hcalls] at hswaps
  refine ⟨c.carryOut s ((c.entry s).replace h k old bytes), ?_, ?_⟩
  · rw [run_reload_of_find? hs, hk, hd.reload_eq_replace hold]
    simp only [Entry.replace, hc]
  · simp only [Entry.replace, hc] at hswaps ⊢
    exact hswaps

end Ready

/-! ### A reload from the source -/

/-- The entry of a handle with what it holds and its kind, if it is loaded. -/
def held? (c : Cache) (h : Handle) : Option (Entry × Representation × Kind) :=
  (c.lookup? h).bind fun e => e.held.bind fun old =>
    (c.kind? h.type).map fun k => (e, old, k)

/-- What comes of a handle when it is reloaded from the source: its new
representation, or why it keeps the old; and the callbacks that are made. -/
def refresh (c : Cache) (h : Handle) :
    Except Failure Representation × List Callback :=
  match c.source.read h with
  | .error why => (.error (.noBytes h why), [])
  | .ok bytes =>
    match c.held? h with
    | none => (.error (.notLoaded h), [])
    | some (e, old, k) =>
      let outcome := (k.reload h old.content bytes).map (Entry.nextObject old)
      (outcome.mapError (.reload h), e.reloadCalls k h old bytes outcome)

/-- What is looked up for a handle when it has been reloaded from the source. -/
def refreshed? (c : Cache) (h : Handle) : Option Entry :=
  (c.lookup? h).map fun e =>
    match (c.refresh h).1 with
    | .ok new => e.holding new
    | .error _ => e

theorem handle_of_mem_refresh {cb : Callback} (hcb : cb ∈ (c.refresh h).2) :
    cb.handle = h := by
  unfold refresh at hcb
  split at hcb
  · cases hcb
  · split at hcb
    · cases hcb
    · exact Entry.handle_of_mem_reloadCalls hcb

/-- Every failure names the handle. -/
theorem handle?_of_refresh {f : Failure} (hf : (c.refresh h).1 = .error f) :
    f.handle? = some h := by
  unfold refresh at hf
  split at hf
  · cases hf
    rfl
  · rename_i bytes hread
    split at hf
    · cases hf
      rfl
    · rename_i e old k hheld
      dsimp only at hf
      cases hr : k.reload h old.content bytes <;> rw [hr] at hf <;> cases hf
      rfl

theorem refresh_of_unread {why : SourceFailure}
    (hread : c.source.read h = .error why) :
    c.refresh h = (.error (.noBytes h why), []) := by
  rw [refresh, hread]

theorem refresh_of_held (hread : c.source.read h = .ok bytes)
    (hheld : c.held? h = some (e, old, k)) :
    c.refresh h =
      (((k.reload h old.content bytes).map (Entry.nextObject old)).mapError
          (.reload h),
        e.reloadCalls k h old bytes
          ((k.reload h old.content bytes).map (Entry.nextObject old))) := by
  simp only [refresh, hread, hheld]

/-- Where nothing new comes, the entry stays. -/
theorem refreshed?_of_error {f : Failure} (hf : (c.refresh h).1 = .error f) :
    c.refreshed? h = c.lookup? h := by
  rw [refreshed?, hf]
  exact Option.map_id'

theorem refreshed?_of_ok (hx : (c.refresh h).1 = .ok x) :
    c.refreshed? h = (c.lookup? h).map (·.holding x) := by
  rw [refreshed?, hx]

/-- The bytes of a handle are read, and it is reloaded with them. -/
theorem run_reloadFromSource_one (c : Cache) (h : Handle) :
    (reloadFromSource h.type [h.name]).run c =
      match c.source.read h with
      | .error why => (.error (.noBytes h why), c)
      | .ok bytes => (reload h bytes).run c := by
  rw [reloadFromSource, Program.run_orStop, run_readSource]
  cases c.source.read h with
  | error why => rfl
  | ok bytes =>
    dsimp only [Except.mapError]
    rw [Program.run_orStop]
    cases hrun : (reload h bytes).run c with
    | mk a c' => cases a <;> rfl

namespace Ready

/-- What is looked up holds something, of a type that is registered. -/
theorem exists_held? (hr : c.Ready h) (hl : c.lookup? h = some e) :
    ∃ old k, e.held = some old ∧ c.kind? h.type = some k ∧
      c.held? h = some (e, old, k) := by
  obtain ⟨hd, hreg⟩ := hr.loaded e hl
  obtain ⟨old, hold⟩ := Option.isSome_iff_exists.1 hd.held
  obtain ⟨k, hk⟩ := Option.isSome_iff_exists.1 hreg
  refine ⟨old, k, hold, hk, ?_⟩
  rw [held?, hl, Option.bind_some, hold, Option.bind_some, hk, Option.map_some]

theorem refreshed (hr : c.Ready h) (he : c.refreshed? h = some e) :
    e.Loaded ∧ c.Registered h.type := by
  obtain ⟨e', hl, rfl⟩ := Option.map_eq_some_iff.1 he
  obtain ⟨hd, hreg⟩ := hr.loaded e' hl
  refine ⟨?_, hreg⟩
  split
  · exact hd.holding _
  · exact hd

/-- To reload what is ready from the source is one change. -/
theorem run_reloadFromSource (hr : c.Ready h) :
    ∃ c', (reloadFromSource h.type [h.name]).run c =
        ((c.refresh h).1.map fun _ => (), c') ∧
      c.Swaps h (c.refreshed? h) (c.refresh h).2 c' := by
  rw [run_reloadFromSource_one]
  cases hread : c.source.read h with
  | error why =>
    have hrefresh := refresh_of_unread hread
    rw [refreshed?_of_error (congrArg Prod.fst hrefresh), hrefresh]
    exact ⟨_, rfl, swaps_record hr.made []⟩
  | ok bytes =>
    dsimp only
    cases hl : c.lookup? h with
    | none =>
      have hrefresh : c.refresh h = (.error (.notLoaded h), []) := by
        simp only [refresh, hread, held?, hl]
        rfl
      rw [refreshed?_of_error (congrArg Prod.fst hrefresh), hrefresh,
        run_reload_of_none (hr.find?_eq_none hl)]
      exact ⟨_, rfl, swaps_record hr.made []⟩
    | some e =>
      obtain ⟨old, k, hold, hk, hheld⟩ := hr.exists_held? hl
      have hrefresh := refresh_of_held hread hheld
      cases hreload : k.reload h old.content bytes with
      | error f =>
        rw [hreload] at hrefresh
        rw [refreshed?_of_error (congrArg Prod.fst hrefresh), hrefresh]
        exact ⟨_, hr.run_reload_of_error hl hold hk hreload,
          swaps_record hr.made _⟩
      | ok content =>
        rw [hreload] at hrefresh
        rw [refreshed?_of_ok (congrArg Prod.fst hrefresh), hrefresh, hl]
        exact hr.run_reload_of_ok hl hold hk hreload

end Ready

/-! ### What is seen of a reload -/

/-- Whoever is given a representation is given what the slot holds. -/
theorem exists_of_run_get (hx : ((get h).run c).1 = .ok x) :
    ∃ s, c.find? h = some s ∧ (c.entry s).state = .online ∧
      (c.entry s).held = some x := by
  change (c.visit h .get).1 = .ok x at hx
  cases hs : c.find? h with
  | none =>
    rw [visit, hs] at hx
    cases hx
  | some s =>
    rw [visit, hs] at hx
    exact ⟨s, rfl, Entry.online_of_get hx⟩

/-- A slot holds after a reload what it held, or the object after it. -/
theorem held_run_reload (c : Cache) (h : Handle) (bytes : List UInt8)
    (s : SlotId) :
    (((reload h bytes).run c).2.entry s).held = (c.entry s).held ∨
      ∃ old content, (c.entry s).held = some old ∧
        (((reload h bytes).run c).2.entry s).held =
          some (Entry.nextObject old content) := by
  cases hf : c.find? h with
  | none =>
    rw [run_reload_of_none hf]
    exact .inl rfl
  | some s' =>
    rw [run_reload_of_find? hf]
    by_cases hs : s = s'
    · subst hs
      by_cases hm : c.Made s
      · rw [carryOut, Entry.evicts_reload]
        have hentry := entry_setEntry_record_self hm
          (((c.entry s).reload h (c.kind? h.type) bytes).calls.map
            Call.callback)
          ((c.entry s).reload h (c.kind? h.type) bytes).entry
        rw [if_neg Bool.false_ne_true, hentry]
        exact (c.entry s).held_reload h (c.kind? h.type) bytes
      · rw [entry_of_not_made fun hm' => hm (made_carryOut.1 hm'),
          entry_of_not_made hm]
        exact .inl rfl
    · rw [(keeps_carryOut_of_ne hs _).entry]
      exact .inl rfl

end Cache

end ResourceHost
