import ResourceHost.Cache.Operations
import ResourceHost.Proofs.Cache.Shelves
import ResourceHost.Proofs.Threads.Errands

/-!
# Operations that run alone

While nobody is amid a request, whatever the table lists is loaded.  What an
operation does that runs alone is then told by what is looked up: it alters at
most what is looked up for its own handle, and what it answers is a function of
what it finds there.
-/

namespace ResourceHost

/-! ### Entries with another count -/

namespace Entry

/-- The entry with another number of references. -/
def counting (e : Entry) (n : Nat) : Entry := { e with refCount := n }

variable (e : Entry) (n k : Nat)

@[simp] theorem refCount_counting : (e.counting n).refCount = n := rfl

@[simp] theorem state_counting : (e.counting n).state = e.state := rfl

@[simp] theorem held_counting : (e.counting n).held = e.held := rfl

@[simp] theorem counting_counting : (e.counting n).counting k = e.counting k :=
  rfl

@[simp] theorem counting_refCount : e.counting e.refCount = e := rfl

theorem get_counting (h : Handle) : (e.counting n).get h = e.get h := rfl

variable {e}

theorem Loaded.counting (he : e.Loaded) : (e.counting n).Loaded :=
  ⟨he.state, he.held, he.failure⟩

/-- One more caller shares a loaded entry. -/
theorem Loaded.join? (he : e.Loaded) :
    e.join? =
      some { entry := e.counting (e.refCount + 1), answer := .ok () } := by
  rcases he.state with hs | hs <;> simp [Entry.join?, Entry.counting, hs]

theorem Loaded.get_of_online (he : e.Loaded) (hs : e.state = .online)
    (h : Handle) : ∃ r, e.get h = .ok r := by
  obtain ⟨r, hr⟩ := Option.isSome_iff_exists.1 he.held
  exact ⟨r, by rw [Entry.get, hs, hr]⟩

theorem online_of_get {h : Handle} {r : Representation} (hg : e.get h = .ok r) :
    e.state = .online ∧ e.held = some r := by
  unfold Entry.get at hg
  split at hg
  · rename_i hs hr
    cases hg
    exact ⟨hs, hr⟩
  · cases hg

end Entry

namespace Cache

/-! ### Calm caches -/

/-- Whatever the table lists has been made and loaded, for a type that is
registered. -/
structure Calm (c : Cache) : Prop where
  made : ∀ s, c.Listed s → c.Made s
  loaded : ∀ h e, c.lookup? h = some e → e.Loaded ∧ c.Registered h.type

/-- A handle is missing, or loaded with a type that is registered. -/
structure Ready (c : Cache) (h : Handle) : Prop where
  made : ∀ s, c.find? h = some s → c.Made s
  loaded : ∀ e, c.lookup? h = some e → e.Loaded ∧ c.Registered h.type

/-- The source has bytes for a handle of which a kind makes a content. -/
def Supplies (c : Cache) (h : Handle) (k : Kind) (content : Content) : Prop :=
  ∃ bytes, c.source.read h = .ok bytes ∧ k.load h bytes = .ok content

/-- A change of what is looked up for one handle. -/
structure Alters (c : Cache) (h : Handle) (e? : Option Entry) (c' : Cache) :
    Prop where
  made : ∀ s, c'.Listed s → c'.Made s
  self : c'.lookup? h = e?
  others : ∀ h', h' ≠ h → c'.lookup? h' = c.lookup? h'
  kind? : ∀ t, c'.kind? t = c.kind? t

variable {c c' : Cache} {h : Handle} {e : Entry} {e? : Option Entry}

theorem Alters.calm (ha : c.Alters h e? c') (hc : c.Calm)
    (he : ∀ e, e? = some e → e.Loaded ∧ c.Registered h.type) : c'.Calm := by
  have hreg : ∀ t, c'.Registered t ↔ c.Registered t := by
    intro t
    rw [Registered, Registered, ha.kind?]
  refine ⟨ha.made, fun h' e' hl => ?_⟩
  rw [hreg]
  by_cases hh : h' = h
  · subst hh
    exact he e' (ha.self.symm.trans hl)
  · rw [ha.others h' hh] at hl
    exact hc.loaded h' e' hl

theorem run_kindOf (c : Cache) (t : TypeId) :
    (kindOf t).run c = ((c.kind? t).elim (.error (.unknownType t)) .ok, c) := by
  rw [kindOf, Program.run_bind]
  cases hk : c.kind? t <;>
    simp only [Program.request, Program.run, Request.run, hk] <;> rfl

/-- What is not listed is loaded in a slot of its own, and settled there. -/
theorem run_acquire_of_fetch (hf : c.find? h = none) {k : Kind}
    {outcome : Except Failure Representation} {callbacks : List Callback}
    (hfetch : (c.openSlot h).fetch (c.nextSlot h) k =
      (outcome, (c.openSlot h).record callbacks)) :
    (Request.acquire h k).run c = ((Entry.fresh.settle h k outcome).answer,
      ((c.openSlot h).record callbacks).carryOut (c.nextSlot h)
        (Entry.fresh.settle h k outcome)) := by
  have hfresh : ((c.openSlot h).record callbacks).entry (c.nextSlot h) =
      Entry.fresh :=
    c.entry_openSlot_nextSlot h
  show c.acquire h k = _
  rw [acquire, hf]
  dsimp only
  rw [loadFresh, hfetch]
  dsimp only
  rw [hfresh]

namespace Ready

/-- What is looked up stands in a slot that is listed. -/
theorem exists_slot (hr : c.Ready h) (hl : c.lookup? h = some e) :
    ∃ s, c.find? h = some s ∧ c.Made s ∧ c.entry s = e := by
  cases hf : c.find? h with
  | none =>
    rw [lookup?_of_find? hf] at hl
    cases hl
  | some s =>
    have hm := hr.made s hf
    exact ⟨s, rfl, hm, Option.some.inj ((lookup?_of_made hf hm).symm.trans hl)⟩

theorem find?_eq_none (hr : c.Ready h) (hl : c.lookup? h = none) :
    c.find? h = none := by
  cases hf : c.find? h with
  | none => rfl
  | some s =>
    rw [lookup?_of_made hf (hr.made s hf)] at hl
    cases hl

end Ready

/-- In a calm cache every handle is ready. -/
theorem calm_iff : c.Calm ↔ ∀ h, c.Ready h :=
  ⟨fun hc h => ⟨fun s hs => hc.made s (find?_eq_some_iff.1 hs).2, hc.loaded h⟩,
    fun hr => ⟨fun s hs => (hr s.handle).made s hs, fun h => (hr h).loaded⟩⟩

namespace Calm

theorem ready (hc : c.Calm) (h : Handle) : c.Ready h := calm_iff.1 hc h

theorem exists_slot (hc : c.Calm) (hl : c.lookup? h = some e) :
    ∃ s, c.find? h = some s ∧ c.Made s ∧ c.entry s = e :=
  (hc.ready h).exists_slot hl

theorem find?_eq_none (hc : c.Calm) (hl : c.lookup? h = none) :
    c.find? h = none :=
  (hc.ready h).find?_eq_none hl

/-- A section on a slot that is listed alters what is looked up for its
handle. -/
theorem alters_carryOut {α : Type} (hc : ∀ s, c.Listed s → c.Made s)
    {s : SlotId} (hs : c.find? h = some s) (sec : Section α) :
    c.Alters h (if sec.evicts then none else some sec.entry)
      (c.carryOut s sec) := by
  obtain ⟨rfl, hl⟩ := find?_eq_some_iff.1 hs
  refine ⟨fun s' hs' => ?_, lookup?_carryOut_self hs (hc s hl) sec,
    fun h' hne => ?_, ?_⟩
  · rw [made_carryOut]
    unfold carryOut at hs'
    split at hs'
    · exact hc s' (listed_setEntry.1 (listed_evict.1 hs').1)
    · exact hc s' (listed_setEntry.1 hs')
  · exact lookup?_of_shelf (shelf_carryOut_of_ne sec hne)
  · exact kind?_carryOut s sec

/-! ### Operations on what is there -/

theorem visit_of_none (hc : c.Calm) (hl : c.lookup? h = none) (v : Visit) :
    c.visit h v = (v.absent h, c) := by
  rw [visit, hc.find?_eq_none hl]

/-- An operation on what is there answers by what it finds, and alters it. -/
theorem visit_of_some (hc : c.Calm) (hl : c.lookup? h = some e) (v : Visit) :
    ∃ c', c.visit h v = ((v.inside h (c.kind? h.type) e).answer, c') ∧ c'.Calm ∧
      c.Alters h (if (v.inside h (c.kind? h.type) e).evicts then none
        else some (v.inside h (c.kind? h.type) e).entry) c' := by
  obtain ⟨s, hs, hm, rfl⟩ := hc.exists_slot hl
  have ha :=
    alters_carryOut hc.made hs (v.inside h (c.kind? h.type) (c.entry s))
  obtain ⟨hd, hreg⟩ := hc.loaded h _ hl
  refine ⟨_, by rw [visit, hs], ha.calm hc fun e' he' => ⟨?_, hreg⟩, ha⟩
  have htidy : (v.inside h (c.kind? h.type) (c.entry s)).Tidy h (c.entry s) :=
    v.inside_tidy hd
  cases hev : (v.inside h (c.kind? h.type) (c.entry s)).evicts with
  | true =>
    rw [hev] at he'
    cases he'
  | false =>
    rw [hev] at he'
    cases he'
    exact htidy.loaded hev

theorem run_get (hc : c.Calm) (h : Handle) :
    (Cache.get h).run c =
      ((c.lookup? h).elim (.error (.notLoaded h)) (Entry.get h), c) := by
  show c.visit h .get = _
  cases hl : c.lookup? h with
  | none => exact hc.visit_of_none hl .get
  | some e =>
    obtain ⟨s, hs, hm, rfl⟩ := hc.exists_slot hl
    rw [visit, hs]
    exact Prod.ext rfl (carryOut_of_answering hm _)

theorem run_state (hc : c.Calm) (h : Handle) :
    (Cache.state h).run c = ((c.lookup? h).elim .unloaded Entry.state, c) := by
  show c.visit h .state = _
  cases hl : c.lookup? h with
  | none => exact hc.visit_of_none hl .state
  | some e =>
    obtain ⟨s, hs, hm, rfl⟩ := hc.exists_slot hl
    rw [visit, hs]
    exact Prod.ext rfl (carryOut_of_answering hm _)

theorem run_release_of_none (hc : c.Calm) (hl : c.lookup? h = none) :
    (Cache.release h).run c = (.error (.notLoaded h), c) :=
  hc.visit_of_none hl .release

theorem run_release_of_some (hc : c.Calm) (hl : c.lookup? h = some e) :
    ∃ c', (Cache.release h).run c = (.ok (e.refCount - 1), c') ∧ c'.Calm ∧
      c.Alters h (some (e.counting (e.refCount - 1))) c' :=
  hc.visit_of_some hl .release

/-- What nobody is amid a request about can always be evicted. -/
theorem run_unload (hc : c.Calm) (h : Handle) :
    ∃ c', (Cache.unload h).run c = (.ok (), c') ∧ c'.Calm ∧
      c.Alters h none c' := by
  cases hl : c.lookup? h with
  | none =>
    exact ⟨c, hc.visit_of_none hl .unload, hc, hc.made, hl,
      fun _ _ => rfl, fun _ => rfl⟩
  | some e =>
    obtain ⟨c', hrun, hc', ha⟩ := hc.visit_of_some hl .unload
    obtain ⟨hd, hreg⟩ := hc.loaded h e hl
    obtain ⟨k, hk⟩ := Option.isSome_iff_exists.1 hreg
    have hans : (e.unload h (c.kind? h.type)).answer = .ok () ∧
        (e.unload h (c.kind? h.type)).evicts = true := by
      rcases hd.state with hs | hs <;> simp [Entry.unload, hk, hs]
    refine ⟨c', ?_, hc', ?_⟩
    · rw [← hans.1]
      exact hrun
    · have hev : (Visit.unload.inside h (c.kind? h.type) e).evicts = true :=
        hans.2
      rw [hev] at ha
      exact ha

/-! ### Loading -/

theorem run_acquire_of_some (hc : c.Calm) (hl : c.lookup? h = some e)
    (k : Kind) :
    ∃ c', (Request.acquire h k).run c = (.ok (), c') ∧ c'.Calm ∧
      c.Alters h (some (e.counting (e.refCount + 1))) c' := by
  obtain ⟨s, hs, hm, rfl⟩ := hc.exists_slot hl
  obtain ⟨hd, hreg⟩ := hc.loaded h _ hl
  have ha := alters_carryOut hc.made hs (α := Except Failure Unit)
    { entry := (c.entry s).counting ((c.entry s).refCount + 1),
      answer := .ok () }
  refine ⟨_, ?_, ha.calm hc fun e' he' => ?_, ha⟩
  · show c.acquire h k = _
    rw [acquire, hs]
    dsimp only
    rw [hd.join?]
  · cases he'
    exact ⟨hd.counting _, hreg⟩

/-- A fresh slot is all that changes when one is opened. -/
theorem openSlot_made (hc : c.Calm) (h : Handle) {s : SlotId}
    (hl : (c.openSlot h).Listed s) : (c.openSlot h).Made s := by
  by_cases hh : s.handle = h
  · subst hh
    rw [hl.unique (c.listed_openSlot_nextSlot s.handle) rfl]
    exact (made_openSlot c).2 (.inr rfl)
  · rw [Listed, find?_openSlot_of_ne c hh] at hl
    exact (made_openSlot c).2 (.inl (hc.made s hl))

/-- What a fetch comes to: a first object for the slot, of what the kind makes
of the source's bytes, or a failure.  The cache only records it. -/
theorem exists_of_fetch (c : Cache) (s : SlotId) (k : Kind) :
    ∃ outcome callbacks, c.fetch s k = (outcome, c.record callbacks) ∧
      ∀ r, outcome = .ok r → c.Supplies s.handle k r.content := by
  unfold fetch
  cases hread : c.source.read s.handle with
  | error why => exact ⟨_, [], rfl, nofun⟩
  | ok bytes =>
    dsimp only
    cases hload : k.load s.handle bytes with
    | error f => exact ⟨_, _, rfl, nofun⟩
    | ok content =>
      refine ⟨_, _, rfl, fun r hr => ⟨bytes, hread, ?_⟩⟩
      cases hr
      exact hload

/-- A load that runs alone brings the handle online, with one reference and what
the source has for it, or fails and leaves nothing behind. -/
theorem run_acquire_of_none (hc : c.Calm) (hl : c.lookup? h = none)
    (hreg : c.Registered h.type) (k : Kind) :
    ∃ o c', (Request.acquire h k).run c = (o, c') ∧ c'.Calm ∧
      ((∃ f, o = .error f) ∧ c.Alters h none c' ∨
        o = .ok () ∧ ∃ e, e.Loaded ∧ e.state = .online ∧ e.refCount = 1 ∧
          c.Alters h (some e) c' ∧ ∃ r, e.held = some r ∧
          c.Supplies h k r.content) := by
  obtain ⟨outcome, callbacks, hfetch, hmade⟩ :=
    exists_of_fetch (c.openSlot h) (c.nextSlot h) k
  have hopen : (c.openSlot h).find? h = some (c.nextSlot h) :=
    c.listed_openSlot_nextSlot h
  have hrun := run_acquire_of_fetch (hc.find?_eq_none hl) hfetch
  have halters := alters_carryOut (c := (c.openSlot h).record callbacks)
    (fun s hs => hc.openSlot_made h hs) hopen (Entry.fresh.settle h k outcome)
  -- Opening the slot does not show for other handles.
  have ha : c.Alters h _ _ := ⟨halters.made, halters.self, fun h' hne =>
    (halters.others h' hne).trans
      (lookup?_of_shelf (shelf_setShelf_of_ne c hne _)),
    halters.kind?⟩
  cases outcome with
  | error f =>
    exact ⟨_, _, hrun, ha.calm hc (fun e he => nomatch he), .inl ⟨⟨f, rfl⟩, ha⟩⟩
  | ok r =>
    have hd : (Entry.fresh.settle h k (.ok r)).entry.Loaded :=
      ⟨.inl rfl, rfl, rfl⟩
    refine ⟨_, _, hrun, ha.calm hc fun e he => ?_,
      .inr ⟨rfl, _, hd, rfl, rfl, ha, r, rfl, hmade r rfl⟩⟩
    cases he
    exact ⟨hd, hreg⟩

end Calm

end Cache

end ResourceHost
