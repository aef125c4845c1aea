import ResourceHost.Proofs.Cache.Swaps

/-!
# One load, one unload

Whoever acquires a handle that is ready shares what is loaded, or loads it in a
slot of its own.  The load comes to the first object of that slot, online with
one reference, or to a failure that names the handle, and then the handle is
missing as it was.  To unload a handle that is ready never fails.
-/

namespace ResourceHost

/-- An entry that has been loaded and only counted since. -/
def Entry.started (r : Representation) (n : Nat) : Entry :=
  { state := .online, held := some r, refCount := n }

/-- The callbacks of an unload. -/
def Entry.unloadCalls (e : Entry) (k : Kind) (h : Handle) : List Callback :=
  match e.held with
  | some r => e.ifOnline (.offline k h r) ++ [.unload k h r]
  | none => []

theorem Entry.loaded_started (r : Representation) (n : Nat) :
    (started r n).Loaded :=
  ⟨.inl rfl, rfl, rfl⟩

theorem Entry.handle_of_mem_unloadCalls {e : Entry} {k : Kind} {h : Handle}
    {cb : Callback} (hcb : cb ∈ e.unloadCalls k h) : cb.handle = h := by
  unfold unloadCalls at hcb
  split at hcb
  · rcases List.mem_append.1 hcb with hcb | hcb
    · rw [handle_of_mem_ifOnline hcb]
      rfl
    · rw [List.mem_singleton.1 hcb]
      rfl
  · cases hcb

namespace Cache

variable {c c' c'' : Cache} {h : Handle} {e : Entry} {e? e?' : Option Entry}
  {k : Kind} {callbacks callbacks' : List Callback}

/-! ### What a load comes to -/

/-- What a kind makes of the bytes that the source has for a handle, or why it
cannot. -/
def loads (c : Cache) (k : Kind) (h : Handle) : Except Failure Content :=
  match c.source.read h with
  | .error why => .error (.noBytes h why)
  | .ok bytes => (k.load h bytes).mapError (.loader h)

/-- The representation that a handle would get next. -/
def nextObject (c : Cache) (h : Handle) (content : Content) : Representation :=
  Entry.firstObject (c.nextSlot h) content

/-- The callback that loads the bytes of a handle, if there are bytes. -/
def fetchCalls (c : Cache) (k : Kind) (h : Handle) : List Callback :=
  match c.source.read h with
  | .error _ => []
  | .ok bytes => [.load k h bytes ((k.load h bytes).map (c.nextObject h))]

/-- The callbacks of a load. -/
def loadCalls (c : Cache) (k : Kind) (h : Handle) : List Callback :=
  c.fetchCalls k h ++
    match c.loads k h with
    | .ok content => [.online k h (c.nextObject h content)]
    | .error _ => []

/-- Why a handle cannot be had: it is missing and cannot be loaded. -/
def denial? (c : Cache) (k : Kind) (h : Handle) : Option Failure :=
  match c.lookup? h, c.loads k h with
  | none, .error f => some f
  | _, _ => none

/-- What is looked up for a handle once some references to it have been taken:
the entry there was, or one that has been loaded. -/
def taken? (c : Cache) (k : Kind) (h : Handle) (n : Nat) : Option Entry :=
  match c.lookup? h with
  | some e => some (e.counting (e.refCount + n))
  | none =>
    if n = 0 then none
    else
      match c.loads k h with
      | .ok content => some (.started (c.nextObject h content) n)
      | .error _ => none

/-- The callbacks when some references to a handle are taken: it is loaded once,
if it is missing. -/
def takeCalls (c : Cache) (k : Kind) (h : Handle) (n : Nat) : List Callback :=
  if n = 0 ∨ (c.lookup? h).isSome then [] else c.loadCalls k h

/-- The callbacks when a handle is unloaded, if it is there and has a kind. -/
def unloadCalls (c : Cache) (h : Handle) : List Callback :=
  match c.lookup? h, c.kind? h.type with
  | some e, some k => e.unloadCalls k h
  | _, _ => []

theorem handle_of_mem_loadCalls {cb : Callback} (hcb : cb ∈ c.loadCalls k h) :
    cb.handle = h := by
  rcases List.mem_append.1 hcb with hcb | hcb
  · unfold fetchCalls at hcb
    split at hcb
    · cases hcb
    · rw [List.mem_singleton.1 hcb]
      rfl
  · split at hcb
    · rw [List.mem_singleton.1 hcb]
      rfl
    · cases hcb

theorem handle_of_mem_takeCalls {n : Nat} {cb : Callback}
    (hcb : cb ∈ c.takeCalls k h n) : cb.handle = h := by
  unfold takeCalls at hcb
  split at hcb
  · cases hcb
  · exact handle_of_mem_loadCalls hcb

theorem handle_of_mem_unloadCalls {cb : Callback} (hcb : cb ∈ c.unloadCalls h) :
    cb.handle = h := by
  unfold unloadCalls at hcb
  split at hcb
  · exact Entry.handle_of_mem_unloadCalls hcb
  · cases hcb

/-! ### A load -/

/-- Changes for one handle, one after another, are one change. -/
theorem Swaps.trans (ha : c.Swaps h e? callbacks c')
    (hb : c'.Swaps h e?' callbacks' c'') :
    c.Swaps h e?' (callbacks ++ callbacks') c'' := by
  refine ⟨hb.lookup?, ?_, ha.settings.trans hb.settings,
    fun h' hne => (hb.shelf h' hne).trans (ha.shelf h' hne), fun s hs hne => ?_,
    hb.found⟩
  · rw [hb.log, ha.log, List.reverse_append, List.append_assoc]
  · obtain ⟨hm, hk⟩ := ha.slots s hs hne
    have hne' : c'.find? h ≠ some s := by
      intro hf
      obtain ⟨rfl, hl⟩ := find?_eq_some_iff.1 hf
      exact hne (hk.listed.1 hl)
    obtain ⟨hm', hk'⟩ := hb.slots s hm hne'
    exact ⟨hm', hk.trans hk'⟩

theorem swaps_openSlot (hf : c.find? h = none) :
    c.Swaps h (some .fresh) [] (c.openSlot h) := by
  have hmade : (c.openSlot h).Made (c.nextSlot h) :=
    (c.made_openSlot).2 (.inr rfl)
  have hfind : (c.openSlot h).find? h = some (c.nextSlot h) :=
    c.listed_openSlot_nextSlot h
  refine ⟨?_, rfl, ⟨rfl, rfl, rfl⟩, fun h' hne => shelf_setShelf_of_ne c hne _,
    fun s hs _ => ⟨(c.made_openSlot).2 (.inl hs), keeps_openSlot hs hf⟩,
    fun s hs => ?_⟩
  · rw [lookup?_of_made hfind hmade, c.entry_openSlot_nextSlot]
  · cases hfind.symm.trans hs
    exact hmade

/-- The slot that was opened is filled from the same source. -/
theorem fetch_openSlot (c : Cache) (k : Kind) (h : Handle) :
    (c.openSlot h).fetch (c.nextSlot h) k =
      ((c.loads k h).map (c.nextObject h),
        (c.openSlot h).record (c.fetchCalls k h)) := by
  have hhandle : (c.nextSlot h).handle = h := rfl
  have hsource : (c.openSlot h).source = c.source := rfl
  rw [fetch, hsource, hhandle, loads, fetchCalls]
  cases c.source.read h with
  | error why => rfl
  | ok bytes =>
    dsimp only
    cases k.load h bytes <;> rfl

namespace Ready

/-- Whoever acquires a handle that is missing loads it. -/
theorem run_acquire_of_none (hr : c.Ready h) (hl : c.lookup? h = none)
    (k : Kind) :
    ∃ c', (Request.acquire h k).run c =
        ((c.denial? k h).elim (.ok ()) .error, c') ∧
      c.Swaps h (c.taken? k h 1) (c.takeCalls k h 1) c' := by
  have hf := hr.find?_eq_none hl
  have hmade : (c.openSlot h).Made (c.nextSlot h) :=
    (c.made_openSlot).2 (.inr rfl)
  have hfind : (c.openSlot h).find? h = some (c.nextSlot h) :=
    c.listed_openSlot_nextSlot h
  -- A slot is opened, the bytes are loaded, and the entry is settled.
  have hopened := swaps_openSlot hf
  have hfetched := hopened.trans (swaps_record hopened.found (c.fetchCalls k h))
  have hsettled := hfetched.trans (swaps_carryOut
    (c := (c.openSlot h).record (c.fetchCalls k h)) hfind hmade
    (Entry.fresh.settle h k ((c.loads k h).map (c.nextObject h))))
  have hrun := run_acquire_of_fetch hf (fetch_openSlot c k h)
  have htaken : c.takeCalls k h 1 = c.loadCalls k h := by simp [takeCalls, hl]
  rw [htaken, hrun]
  refine ⟨_, Prod.ext ?_ rfl, ?_⟩
  · simp only [denial?, hl]
    cases c.loads k h <;> rfl
  · simp only [taken?, loadCalls, hl]
    cases hloads : c.loads k h with
    | ok content =>
      rw [hloads] at hsettled
      exact hsettled
    | error f =>
      rw [hloads] at hsettled
      exact hsettled

/-- Whoever acquires a handle takes a reference to what is there, or loads
it. -/
theorem run_acquire (hr : c.Ready h) (k : Kind) :
    ∃ c',
      (Request.acquire h k).run c = ((c.denial? k h).elim (.ok ()) .error, c') ∧
      c.Swaps h (c.taken? k h 1) (c.takeCalls k h 1) c' := by
  cases hl : c.lookup? h with
  | none => exact hr.run_acquire_of_none hl k
  | some e =>
    obtain ⟨s, hs, hm, rfl⟩ := hr.exists_slot hl
    have hd := (hr.loaded _ hl).1
    have hswaps := swaps_carryOut hs hm (α := Except Failure Unit)
      { entry := (c.entry s).counting ((c.entry s).refCount + 1),
        answer := .ok () }
    simp only [denial?, taken?, takeCalls, hl]
    refine ⟨_, ?_, hswaps⟩
    show c.acquire h k = _
    rw [acquire, hs]
    dsimp only
    rw [hd.join?]
    rfl

/-- A handle stays ready when it is acquired. -/
theorem taken (hr : c.Ready h) (hk : c.Registered h.type) {n : Nat}
    (he : c.taken? k h n = some e) : e.Loaded ∧ c.Registered h.type := by
  refine ⟨?_, hk⟩
  unfold taken? at he
  cases hl : c.lookup? h with
  | some e' =>
    rw [hl] at he
    cases he
    exact (hr.loaded e' hl).1.counting _
  | none =>
    simp only [hl] at he
    split at he
    · cases he
    · split at he
      · cases he
        exact Entry.loaded_started _ _
      · cases he

/-! ### An unload -/

/-- What is ready can be unloaded. -/
theorem run_unload (hr : c.Ready h) :
    ∃ c', (unload h).run c = (.ok (), c') ∧
      c.Swaps h none (c.unloadCalls h) c' := by
  cases hl : c.lookup? h with
  | none =>
    have hswaps := swaps_record (h := h) hr.made []
    rw [hl] at hswaps
    rw [unloadCalls, hl]
    refine ⟨c, ?_, hswaps⟩
    show c.visit h .unload = _
    rw [visit, hr.find?_eq_none hl]
    rfl
  | some e =>
    obtain ⟨s, hs, hm, rfl⟩ := hr.exists_slot hl
    obtain ⟨hd, hreg⟩ := hr.loaded _ hl
    obtain ⟨k, hk⟩ := Option.isSome_iff_exists.1 hreg
    obtain ⟨r, hheld⟩ := Option.isSome_iff_exists.1 hd.held
    have hswaps := swaps_carryOut hs hm ((c.entry s).unload h (some k))
    have hev : ((c.entry s).unload h (some k)).evicts = true := by
      rcases hd.state with hst | hst <;> simp [Entry.unload, hst]
    have hanswer : ((c.entry s).unload h (some k)).answer = .ok () := by
      rcases hd.state with hst | hst <;> simp [Entry.unload, hst]
    have hcalls : ((c.entry s).unload h (some k)).calls.map Call.callback =
        (c.entry s).unloadCalls k h := by
      rcases hd.state with hst | hst <;>
        simp [Entry.unload, Entry.unloadCalls, Entry.ifOnline, Entry.callHeld,
          hst, hheld]
    rw [hev, hcalls] at hswaps
    simp only [unloadCalls, hl, hk]
    refine ⟨_, ?_, hswaps⟩
    show c.visit h .unload = _
    rw [visit, hs, ← hanswer, ← hk]
    rfl

end Ready

end Cache

end ResourceHost
