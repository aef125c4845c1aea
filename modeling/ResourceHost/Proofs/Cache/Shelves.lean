import ResourceHost.Cache.Basic

/-!
# Shelves and slots

What each operation of a cache makes of the three views that everything else is
stated in: the entry of a slot, whether the slot has been made, and whether the
table lists it.  After this module nobody opens a shelf.
-/

namespace ResourceHost.Cache

/-- A slot has been made. -/
def Made (c : Cache) (s : SlotId) : Prop :=
  s.turn < (c.shelf s.handle).entries.length

/-- The table lists a slot. -/
def Listed (c : Cache) (s : SlotId) : Prop := c.find? s.handle = some s

/-- A type is registered. -/
def Registered (c : Cache) (t : TypeId) : Prop := (c.kind? t).isSome

/-- A type is registered with a kind, whatever this kind does by now. -/
def Knows (c : Cache) (t : TypeId) (k : Kind) : Prop :=
  ∃ k', c.kind? t = some k' ∧ k'.identity = k.identity

theorem Knows.registered {c : Cache} {t : TypeId} {k : Kind} (h : c.Knows t k) :
    c.Registered t := by
  obtain ⟨k', hk', -⟩ := h
  exact Option.isSome_of_eq_some hk'

theorem knows_of_kind? {c : Cache} {t : TypeId} {k : Kind}
    (h : c.kind? t = some k) : c.Knows t k := ⟨k, h, rfl⟩

/-- A type is registered with one kind. -/
theorem Knows.unique {c : Cache} {t : TypeId} {k k' : Kind} (h : c.Knows t k)
    (h' : c.Knows t k') : k.identity = k'.identity := by
  obtain ⟨k₁, hk₁, heq⟩ := h
  obtain ⟨k₂, hk₂, heq'⟩ := h'
  cases hk₁.symm.trans hk₂
  exact heq.symm.trans heq'

/-! ### The table -/

theorem find?_eq_some_iff {c : Cache} {h : Handle} {s : SlotId} :
    c.find? h = some s ↔ s.handle = h ∧ c.Listed s := by
  obtain ⟨h', n⟩ := s
  simp only [Listed, find?, Option.map_eq_some_iff, SlotId.mk.injEq]
  constructor
  · rintro ⟨m, hm, rfl, rfl⟩
    exact ⟨rfl, m, hm, trivial, rfl⟩
  · rintro ⟨rfl, m, hm, -, rfl⟩
    exact ⟨m, hm, rfl, rfl⟩

/-- The table lists one slot of a handle. -/
theorem Listed.unique {c : Cache} {s s' : SlotId} (h : c.Listed s)
    (h' : c.Listed s') (hh : s.handle = s'.handle) : s = s' := by
  rw [Listed, hh, h'] at h
  exact (Option.some.inj h).symm

theorem listed_iff_shelf {c : Cache} {s : SlotId} :
    c.Listed s ↔ (c.shelf s.handle).listed = some s.turn := by
  obtain ⟨h, n⟩ := s
  simp [Listed, find?]

theorem isListed_eq_isSome (c : Cache) (h : Handle) :
    c.isListed h = (c.find? h).isSome := by
  simp [isListed, find?]

/-! ### Shelves -/

@[simp] theorem shelf_setShelf_self (c : Cache) (h : Handle) (s : Shelf) :
    (c.setShelf h s).shelf h = s := by
  simp [shelf, setShelf, Table.getD]

theorem shelf_setShelf_of_ne (c : Cache) {h h' : Handle} (hne : h' ≠ h)
    (s : Shelf) : (c.setShelf h s).shelf h' = c.shelf h' := by
  simp [shelf, setShelf, Table.getD, Table.get?_put_of_ne _ hne]

theorem not_made_nextSlot (c : Cache) (h : Handle) :
    ¬ c.Made (c.nextSlot h) := by
  simp [Made, nextSlot]

theorem entry_of_not_made {c : Cache} {s : SlotId} (hs : ¬ c.Made s) :
    c.entry s = { state := .unloaded } := by
  have hle : (c.shelf s.handle).entries.length ≤ s.turn := Nat.le_of_not_lt hs
  simp [entry, entry?, List.getElem?_eq_none hle]

/-! ### A slot is opened -/

variable (c : Cache)

theorem made_openSlot {h : Handle} {s : SlotId} :
    (c.openSlot h).Made s ↔ c.Made s ∨ s = c.nextSlot h := by
  obtain ⟨h', n⟩ := s
  by_cases hh : h' = h
  · subst hh
    simp only [Made, openSlot, shelf_setShelf_self, List.length_append,
      List.length_singleton, nextSlot, SlotId.mk.injEq, true_and]
    omega
  · simp [Made, openSlot, shelf_setShelf_of_ne c hh, nextSlot, hh]

theorem entry_openSlot_of_made {h : Handle} {s : SlotId} (hs : c.Made s) :
    (c.openSlot h).entry s = c.entry s := by
  by_cases hh : s.handle = h
  · subst hh
    have hlt : s.turn < (c.shelf s.handle).entries.length := hs
    simp [entry, entry?, openSlot, List.getElem?_append_left hlt]
  · simp [entry, entry?, openSlot, shelf_setShelf_of_ne c hh]

@[simp] theorem entry_openSlot_nextSlot (h : Handle) :
    (c.openSlot h).entry (c.nextSlot h) = Entry.fresh := by
  simp [entry, entry?, openSlot, nextSlot]

@[simp] theorem listed_openSlot_nextSlot (h : Handle) :
    (c.openSlot h).Listed (c.nextSlot h) := by
  simp [listed_iff_shelf, openSlot, nextSlot]

theorem find?_openSlot_of_ne {h h' : Handle} (hne : h' ≠ h) :
    (c.openSlot h).find? h' = c.find? h' := by
  simp [find?, openSlot, shelf_setShelf_of_ne c hne]

/-- A slot opened for a handle that is not listed changes nothing about the
slots there were. -/
theorem listed_openSlot_of_made {h : Handle} {s : SlotId} (hs : c.Made s)
    (hfree : c.find? h = none) : (c.openSlot h).Listed s ↔ c.Listed s := by
  by_cases hh : s.handle = h
  · subst hh
    constructor
    · intro hl
      have heq : s = c.nextSlot s.handle :=
        hl.unique (c.listed_openSlot_nextSlot s.handle) rfl
      exact absurd (heq ▸ hs) (c.not_made_nextSlot s.handle)
    · intro hl
      rw [Listed, hfree] at hl
      cases hl
  · rw [Listed, c.find?_openSlot_of_ne hh, Listed]

/-! ### An entry is changed -/

variable {c}

theorem made_setEntry {s s' : SlotId} {e : Entry} :
    (c.setEntry s e).Made s' ↔ c.Made s' := by
  by_cases hh : s'.handle = s.handle
  · simp [Made, setEntry, hh]
  · simp [Made, setEntry, shelf_setShelf_of_ne c hh]

@[simp] theorem find?_setEntry (s : SlotId) (e : Entry) (h : Handle) :
    (c.setEntry s e).find? h = c.find? h := by
  by_cases hh : h = s.handle
  · subst hh
    simp [find?, setEntry]
  · simp [find?, setEntry, shelf_setShelf_of_ne c hh]

@[simp] theorem listed_setEntry {s s' : SlotId} {e : Entry} :
    (c.setEntry s e).Listed s' ↔ c.Listed s' := by
  simp [Listed]

theorem entry_setEntry_self {s : SlotId} (hs : c.Made s) (e : Entry) :
    (c.setEntry s e).entry s = e := by
  have hlt : s.turn < (c.shelf s.handle).entries.length := hs
  simp [entry, entry?, setEntry, hlt]

theorem entry_setEntry_of_ne {s s' : SlotId} (hne : s' ≠ s) (e : Entry) :
    (c.setEntry s e).entry s' = c.entry s' := by
  obtain ⟨h, n⟩ := s
  obtain ⟨h', n'⟩ := s'
  by_cases hh : h' = h
  · subst hh
    have hn : n ≠ n' := fun hn => hne (by rw [hn])
    simp [entry, entry?, setEntry, List.getElem?_set_ne hn]
  · simp [entry, entry?, setEntry, shelf_setShelf_of_ne c hh]

/-- To set what is there changes nothing. -/
theorem setEntry_entry {s : SlotId} (hs : c.Made s) :
    c.setEntry s (c.entry s) = c := by
  have hlt : s.turn < (c.shelf s.handle).entries.length := hs
  have hentry : c.entry s = (c.shelf s.handle).entries[s.turn] := by
    rw [entry, entry?, List.getElem?_eq_getElem hlt]
    rfl
  have hshelf : c.shelves.get? s.handle = some (c.shelf s.handle) := by
    cases hg : c.shelves.get? s.handle with
    | some found =>
      have heq : c.shelf s.handle = found := by
        rw [shelf, Table.getD, hg]
        rfl
      rw [heq]
    | none =>
      have hempty : c.shelf s.handle = {} := by
        rw [shelf, Table.getD, hg]
        rfl
      rw [hempty] at hlt
      exact absurd hlt (Nat.not_lt_zero _)
  unfold setEntry setShelf
  dsimp only
  rw [hentry, List.set_getElem_self, Table.put_of_get? hshelf]

/-! ### A slot is taken out of the table -/

theorem evict_of_listed {s : SlotId} (hs : c.Listed s) :
    c.evict s = c.setShelf s.handle { c.shelf s.handle with listed := none } :=
  if_pos (listed_iff_shelf.1 hs)

theorem evict_of_not_listed {s : SlotId} (hs : ¬ c.Listed s) : c.evict s = c :=
  if_neg fun hl => hs (listed_iff_shelf.2 hl)

@[simp] theorem entry_evict (s s' : SlotId) :
    (c.evict s).entry s' = c.entry s' := by
  by_cases hs : c.Listed s
  · rw [evict_of_listed hs]
    by_cases hh : s'.handle = s.handle
    · simp [entry, entry?, hh]
    · simp [entry, entry?, shelf_setShelf_of_ne c hh]
  · rw [evict_of_not_listed hs]

@[simp] theorem made_evict {s s' : SlotId} :
    (c.evict s).Made s' ↔ c.Made s' := by
  by_cases hs : c.Listed s
  · rw [evict_of_listed hs]
    by_cases hh : s'.handle = s.handle
    · simp [Made, hh]
    · simp [Made, shelf_setShelf_of_ne c hh]
  · rw [evict_of_not_listed hs]

theorem find?_evict (s : SlotId) (h : Handle) :
    (c.evict s).find? h = if c.find? h = some s then none else c.find? h := by
  by_cases hs : c.Listed s
  · rw [evict_of_listed hs]
    by_cases hh : h = s.handle
    · subst hh
      rw [Listed] at hs
      simp [find?, ← hs]
    · rw [if_neg (fun hf => hh (find?_eq_some_iff.1 hf).1.symm)]
      simp [find?, shelf_setShelf_of_ne c hh]
  · rw [evict_of_not_listed hs, if_neg fun hf => hs (find?_eq_some_iff.1 hf).2]

theorem listed_evict {s s' : SlotId} :
    (c.evict s).Listed s' ↔ c.Listed s' ∧ s' ≠ s := by
  rw [Listed, find?_evict]
  by_cases hs : c.find? s'.handle = some s
  · have hne : ∀ hl : c.Listed s', s' = s :=
      fun hl => Option.some.inj (hl.symm.trans hs)
    simpa [hs] using hne
  · rw [if_neg hs]
    exact ⟨fun hl => ⟨hl, fun heq => hs (heq ▸ hl)⟩, fun hl => hl.1⟩

/-! ### What does not touch a shelf -/

@[simp] theorem entry_record (cs : List Callback) (s : SlotId) :
    (c.record cs).entry s = c.entry s := rfl

@[simp] theorem find?_record (cs : List Callback) (h : Handle) :
    (c.record cs).find? h = c.find? h := rfl

@[simp] theorem listed_record {cs : List Callback} {s : SlotId} :
    (c.record cs).Listed s ↔ c.Listed s := Iff.rfl

@[simp] theorem made_record {cs : List Callback} {s : SlotId} :
    (c.record cs).Made s ↔ c.Made s := Iff.rfl

@[simp] theorem kind?_record (cs : List Callback) (t : TypeId) :
    (c.record cs).kind? t = c.kind? t := rfl

@[simp] theorem kind?_openSlot (h : Handle) (t : TypeId) :
    (c.openSlot h).kind? t = c.kind? t := rfl

@[simp] theorem kind?_setEntry (s : SlotId) (e : Entry) (t : TypeId) :
    (c.setEntry s e).kind? t = c.kind? t := rfl

@[simp] theorem kind?_evict (s : SlotId) (t : TypeId) :
    (c.evict s).kind? t = c.kind? t := by
  by_cases hs : c.Listed s
  · rw [evict_of_listed hs]
    rfl
  · rw [evict_of_not_listed hs]

theorem entry_setEntry_record_self {s : SlotId} (hs : c.Made s)
    (cs : List Callback) (e : Entry) :
    ((c.record cs).setEntry s e).entry s = e :=
  entry_setEntry_self (c := c.record cs) hs e

@[simp] theorem log_openSlot (h : Handle) : (c.openSlot h).log = c.log := rfl

@[simp] theorem log_setEntry (s : SlotId) (e : Entry) :
    (c.setEntry s e).log = c.log := rfl

@[simp] theorem log_evict (s : SlotId) : (c.evict s).log = c.log := by
  by_cases hs : c.Listed s
  · rw [evict_of_listed hs]
    rfl
  · rw [evict_of_not_listed hs]

@[simp] theorem log_record (cs : List Callback) :
    (c.record cs).log = cs.reverse ++ c.log := rfl

/-- A type is registered once. -/
theorem kind?_register (t : TypeId) (k : Kind) (t' : TypeId) :
    (c.register t k).2.kind? t' = c.kind? t' ∨
      c.kind? t' = none ∧ t' = t ∧ (c.register t k).2.kind? t' = some k := by
  unfold register
  split
  · exact .inl rfl
  · rename_i hfree
    by_cases ht : t' = t
    · subst ht
      have hnone : c.kinds.get? t' = none := by
        simpa [Table.contains] using hfree
      exact .inr ⟨hnone, rfl, Table.get?_put_self _ _ _⟩
    · exact .inl (Table.get?_put_of_ne _ ht _)

theorem shelf_eq_of_shelves {c' : Cache} (hc : c'.shelves = c.shelves)
    (h : Handle) : c'.shelf h = c.shelf h := by
  rw [shelf, shelf, hc]

theorem made_of_shelves {c c' : Cache} (hc : c'.shelves = c.shelves)
    (s : SlotId) : c'.Made s ↔ c.Made s := by
  rw [Made, Made, shelf_eq_of_shelves hc]

/-! ### What is looked up -/

theorem lookup?_of_made {h : Handle} {s : SlotId} (hs : c.find? h = some s)
    (hm : c.Made s) : c.lookup? h = some (c.entry s) := by
  have hlt : s.turn < (c.shelf s.handle).entries.length := hm
  rw [lookup?, hs, Option.bind_some, entry, entry?,
    List.getElem?_eq_getElem hlt]
  rfl

theorem lookup?_of_find? {h : Handle} (hf : c.find? h = none) :
    c.lookup? h = none := by
  rw [lookup?, hf]
  rfl

/-- What is looked up for a handle depends on its shelf only. -/
theorem lookup?_of_shelf {c' : Cache} {h : Handle}
    (hs : c'.shelf h = c.shelf h) : c'.lookup? h = c.lookup? h := by
  have hentry : ∀ s : SlotId, s.handle = h → c'.entry? s = c.entry? s := by
    rintro s rfl
    simp only [hs, entry?]
  rw [lookup?, lookup?, find?, find?, hs]
  cases (c.shelf h).listed with
  | none => rfl
  | some n => exact hentry ⟨h, n⟩ rfl

theorem shelf_evict_of_ne {s : SlotId} {h : Handle} (hne : h ≠ s.handle) :
    (c.evict s).shelf h = c.shelf h := by
  unfold evict
  dsimp only
  split
  · exact shelf_setShelf_of_ne c hne _
  · rfl

theorem shelf_carryOut_of_ne {α : Type} {s : SlotId} (sec : Section α)
    {h : Handle} (hne : h ≠ s.handle) :
    (c.carryOut s sec).shelf h = c.shelf h := by
  unfold carryOut
  dsimp only
  split
  · rw [shelf_evict_of_ne hne]
    exact shelf_setShelf_of_ne _ hne _
  · exact shelf_setShelf_of_ne _ hne _

@[simp] theorem made_carryOut {α : Type} {s s' : SlotId} {sec : Section α} :
    (c.carryOut s sec).Made s' ↔ c.Made s' := by
  unfold carryOut
  dsimp only
  split
  · rw [made_evict, made_setEntry, made_record]
  · rw [made_setEntry, made_record]

@[simp] theorem kind?_carryOut {α : Type} (s : SlotId) (sec : Section α)
    (t : TypeId) : (c.carryOut s sec).kind? t = c.kind? t := by
  unfold carryOut
  dsimp only
  split
  · rw [kind?_evict, kind?_setEntry, kind?_record]
  · rw [kind?_setEntry, kind?_record]

/-- What a section on the slot of a handle leaves to be looked up. -/
theorem lookup?_carryOut_self {α : Type} {h : Handle} {s : SlotId}
    (hs : c.find? h = some s) (hm : c.Made s) (sec : Section α) :
    (c.carryOut s sec).lookup? h =
      if sec.evicts then none else some sec.entry := by
  cases hev : sec.evicts with
  | true =>
    refine lookup?_of_find? ?_
    simp [carryOut, hev, find?_evict, hs]
  | false =>
    have hcarried : c.carryOut s sec =
        (c.record (sec.calls.map Call.callback)).setEntry s sec.entry := by
      simp [carryOut, hev]
    have hfind : (c.carryOut s sec).find? h = some s := by
      rw [hcarried, find?_setEntry, find?_record, hs]
    rw [lookup?_of_made hfind (made_carryOut.2 hm), hcarried,
      entry_setEntry_record_self hm]
    rfl

/-- A section that does nothing changes nothing. -/
theorem carryOut_of_answering {α : Type} {s : SlotId} (hm : c.Made s) (a : α) :
    c.carryOut s ((c.entry s).answering a) = c :=
  setEntry_entry (c := c.record []) hm

/-! ### One change after another -/

theorem setShelf_setShelf (c : Cache) (h : Handle) (a b : Shelf) :
    (c.setShelf h a).setShelf h b = c.setShelf h b := by
  simp only [setShelf, Table.put_put]

/-- Of two entries that are set in a slot the later counts. -/
theorem setEntry_setEntry (c : Cache) (s : SlotId) (e e' : Entry) :
    (c.setEntry s e).setEntry s e' = c.setEntry s e' := by
  simp only [setEntry, shelf_setShelf_self, setShelf_setShelf, List.set_set]

/-- It makes no difference whether a slot is let go or taken out of the table
first. -/
theorem setEntry_evict (c : Cache) (s : SlotId) (e : Entry) :
    (c.evict s).setEntry s e = (c.setEntry s e).evict s := by
  by_cases hl : (c.shelf s.handle).listed = some s.turn
  · simp only [evict, setEntry, hl, if_true, shelf_setShelf_self,
      setShelf_setShelf]
  · simp only [evict, setEntry, hl, if_false, shelf_setShelf_self]

theorem record_record (c : Cache) (as bs : List Callback) :
    (c.record as).record bs = c.record (as ++ bs) := by
  simp [record]

/-! ### What a change leaves as it was -/

/-- A slot is as it was, and listed if it was. -/
structure Keeps (c c' : Cache) (s : SlotId) : Prop where
  entry : c'.entry s = c.entry s
  listed : c'.Listed s ↔ c.Listed s

theorem Keeps.of_shelves {c c' : Cache} (hc : c'.shelves = c.shelves)
    (s : SlotId) : c.Keeps c' s := by
  have hs := shelf_eq_of_shelves hc s.handle
  refine ⟨?_, ?_⟩
  · rw [Cache.entry, Cache.entry, Cache.entry?, Cache.entry?, hs]
  · rw [listed_iff_shelf, listed_iff_shelf, hs]

theorem Keeps.symm {c c' : Cache} {s : SlotId} (h : c.Keeps c' s) :
    c'.Keeps c s :=
  ⟨h.entry.symm, h.listed.symm⟩

theorem Keeps.trans {c c' c'' : Cache} {s : SlotId} (h : c.Keeps c' s)
    (h' : c'.Keeps c'' s) : c.Keeps c'' s :=
  ⟨h'.entry.trans h.entry, h'.listed.trans h.listed⟩

theorem keeps_record (cs : List Callback) (s : SlotId) :
    c.Keeps (c.record cs) s :=
  ⟨rfl, Iff.rfl⟩

theorem keeps_openSlot {h : Handle} {s : SlotId} (hs : c.Made s)
    (hfree : c.find? h = none) : c.Keeps (c.openSlot h) s :=
  ⟨c.entry_openSlot_of_made hs, c.listed_openSlot_of_made hs hfree⟩

theorem keeps_setEntry_of_ne {s s' : SlotId} (hne : s' ≠ s) (e : Entry) :
    c.Keeps (c.setEntry s e) s' :=
  ⟨entry_setEntry_of_ne hne e, listed_setEntry⟩

theorem keeps_setEntry_self {s : SlotId} (hs : c.Made s) {e : Entry}
    (he : e = c.entry s) : c.Keeps (c.setEntry s e) s :=
  ⟨by rw [entry_setEntry_self hs, he], listed_setEntry⟩

theorem keeps_evict_of_ne {s s' : SlotId} (hne : s' ≠ s) :
    c.Keeps (c.evict s) s' :=
  ⟨entry_evict s s', listed_evict.trans ⟨fun h => h.1, fun h => ⟨h, hne⟩⟩⟩

/-- What was made stays made, and what was registered stays registered. -/
structure Extends (c c' : Cache) : Prop where
  made : ∀ s, c.Made s → c'.Made s
  knows : ∀ t k, c.Knows t k → c'.Knows t k

theorem Registered.mono {c c' : Cache} (hk : ∀ t k, c.Knows t k → c'.Knows t k)
    {t : TypeId} (h : c.Registered t) : c'.Registered t := by
  obtain ⟨k, hkind⟩ := Option.isSome_iff_exists.1 h
  exact (hk t k (knows_of_kind? hkind)).registered

end ResourceHost.Cache
