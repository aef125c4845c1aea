import ResourceHost.Proofs.Cache.Calm
import ResourceHost.Proofs.Cache.Isolation
import ResourceHost.Proofs.Cache.Settings

/-!
# What one operation changes

An operation on one handle puts something else in the place of what is looked up
for it, after some callbacks, and leaves everything else alone: this is `Swaps`.
What it puts there is known of a handle that is `Ready`, which is to say missing
or loaded.
-/

namespace ResourceHost

namespace Entry

/-- A callback that is made if the entry is online. -/
def ifOnline (e : Entry) (callback : Callback) : List Callback :=
  if e.state = .online then [callback] else []

theorem handle_of_mem_ifOnline {e : Entry} {cb cb' : Callback}
    (h : cb' ∈ e.ifOnline cb) : cb' = cb := by
  unfold ifOnline at h
  split at h
  · exact List.mem_singleton.1 h
  · cases h

end Entry

namespace Cache

variable {c c' c'' : Cache} {h h' : Handle} {e : Entry} {e? : Option Entry}
  {s : SlotId} {callbacks callbacks' : List Callback}

/-! ### Swaps -/

/-- What is looked up for one handle is something else now, after some
callbacks, and nothing else has changed: not the settings, not what is kept for
another handle, and no other slot. -/
structure Swaps (c : Cache) (h : Handle) (e? : Option Entry)
    (callbacks : List Callback) (c' : Cache) : Prop where
  lookup? : c'.lookup? h = e?
  log : c'.log = callbacks.reverse ++ c.log
  settings : c.SameSettings c'
  shelf : ∀ h', h' ≠ h → c'.shelf h' = c.shelf h'
  slots : ∀ s, c.Made s → c.find? h ≠ some s → c'.Made s ∧ c.Keeps c' s
  found : ∀ s, c'.find? h = some s → c'.Made s

namespace Swaps

theorem others (hs : c.Swaps h e? callbacks c') (hne : h' ≠ h) :
    c'.lookup? h' = c.lookup? h' :=
  lookup?_of_shelf (hs.shelf h' hne)

/-- The callbacks about the handle. -/
theorem calls_self (hs : c.Swaps h e? callbacks c')
    (hcbs : ∀ cb ∈ callbacks, cb.handle = h) :
    c'.log.filter (·.handle = h) =
      callbacks.reverse ++ c.log.filter (·.handle = h) := by
  have hall : callbacks.reverse.filter (·.handle = h) = callbacks.reverse :=
    List.filter_eq_self.2 fun cb hcb =>
      decide_eq_true (hcbs cb (List.mem_reverse.1 hcb))
  rw [hs.log, List.filter_append, hall]

/-- Where nothing is called about a handle, its part of the cache stays. -/
theorem alike (hs : c.Swaps h e? callbacks c')
    (hcbs : ∀ cb ∈ callbacks, cb.handle = h) (hne : h' ≠ h) :
    Alike h' c c' := by
  refine ⟨hs.shelf h' hne, by rw [hs.settings.source], hs.settings.kind? _, ?_⟩
  have hnone : callbacks.reverse.filter (·.handle = h') = [] := by
    refine List.filter_eq_nil_iff.2 fun cb hcb => ?_
    rw [hcbs cb (List.mem_reverse.1 hcb)]
    simpa using Ne.symm hne
  rw [hs.log, List.filter_append, hnone, List.nil_append]

end Swaps

/-- Callbacks alone are seen in the log only. -/
theorem swaps_record (hm : ∀ s, c.find? h = some s → c.Made s)
    (callbacks : List Callback) :
    c.Swaps h (c.lookup? h) callbacks (c.record callbacks) :=
  ⟨rfl, rfl, ⟨rfl, rfl, rfl⟩, fun _ _ => rfl,
    fun s hs _ => ⟨hs, keeps_record callbacks s⟩, hm⟩

theorem log_carryOut {α : Type} (c : Cache) (s : SlotId) (sec : Section α) :
    (c.carryOut s sec).log = (sec.calls.map Call.callback).reverse ++
      c.log := by
  unfold carryOut
  dsimp only
  split
  · rw [log_evict, log_setEntry, log_record]
  · rw [log_setEntry, log_record]

theorem keeps_carryOut_of_ne {α : Type} {s s' : SlotId} (hne : s' ≠ s)
    (sec : Section α) : c.Keeps (c.carryOut s sec) s' := by
  have hset : c.Keeps ((c.record (sec.calls.map Call.callback)).setEntry s
      sec.entry) s' :=
    (keeps_record _ s').trans (keeps_setEntry_of_ne hne sec.entry)
  unfold carryOut
  dsimp only
  split
  · exact hset.trans (keeps_evict_of_ne hne)
  · exact hset

/-- A section on the slot that a handle is listed with. -/
theorem swaps_carryOut {α : Type} (hs : c.find? h = some s) (hm : c.Made s)
    (sec : Section α) :
    c.Swaps h (if sec.evicts then none else some sec.entry)
      (sec.calls.map Call.callback) (c.carryOut s sec) := by
  obtain ⟨rfl, -⟩ := find?_eq_some_iff.1 hs
  refine ⟨lookup?_carryOut_self hs hm sec, log_carryOut c s sec,
    sameSettings_carryOut c s sec, fun h' hne => shelf_carryOut_of_ne sec hne,
    fun s' hs' hne => ⟨made_carryOut.2 hs', ?_⟩,
    fun s' hs' => ?_⟩
  · exact keeps_carryOut_of_ne (fun heq => hne (by rw [hs, heq])) sec
  · rw [made_carryOut]
    unfold carryOut at hs'
    dsimp only at hs'
    split at hs'
    · rw [find?_evict, find?_setEntry, find?_record, hs, if_pos rfl] at hs'
      cases hs'
    · rw [find?_setEntry, find?_record, hs] at hs'
      cases hs'
      exact hm

/-! ### Handles that are ready -/

/-- Handles stay ready while what is put in one place is loaded. -/
theorem Ready.of_swaps (hr : c.Ready h') (hs : c.Swaps h e? callbacks c')
    (he : ∀ e, e? = some e → e.Loaded ∧ c.Registered h.type) : c'.Ready h' := by
  have hreg : ∀ t, c'.Registered t ↔ c.Registered t := by
    intro t
    rw [Registered, Registered, hs.settings.kind?]
  by_cases hh : h' = h
  · subst hh
    refine ⟨hs.found, fun e hl => ?_⟩
    rw [hreg]
    exact he e (hs.lookup?.symm.trans hl)
  · refine ⟨fun s hf => ?_, fun e hl => ?_⟩
    · have hf' : c.find? h' = some s := by
        rw [find?, ← hs.shelf h' hh]
        exact hf
      have hm := hr.made s hf'
      obtain ⟨rfl, -⟩ := find?_eq_some_iff.1 hf'
      rw [Made, hs.shelf _ hh]
      exact hm
    · rw [hreg]
      exact hr.loaded e ((hs.others hh).symm.trans hl)

end Cache

end ResourceHost
