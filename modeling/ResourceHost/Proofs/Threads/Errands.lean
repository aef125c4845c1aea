import ResourceHost.Cache.Threads

/-!
# What an errand does to an entry

An entry whose slot nobody has locked is settled: it waits for its load, holds
a loaded resource, or is gone.  An errand finds a settled entry and leaves a
settled one; only the thread that made a slot does anything to an entry that
holds nothing.
-/

namespace ResourceHost

/-- The handle that a request is about. -/
def Request.handle? : Request → Option Handle
  | .acquire h _ | .add h _ _ | .visit h _ => some h
  | .stateOf s => some s.handle
  | _ => none

/-! ### Settled entries -/

namespace Entry

/-- Holds a resource, online or offline. -/
structure Loaded (e : Entry) : Prop where
  state : e.state = .online ∨ e.state = .offline
  held : e.held.isSome
  failure : e.failure = none

/-- Holds nothing and counts nothing any more. -/
structure Gone (e : Entry) : Prop where
  state : e.state = .unloaded
  held : e.held = none
  refCount : e.refCount = 0

/-- What an entry is like while nobody has locked its slot, which is listed or
not. -/
inductive Settled (e : Entry) (listed : Prop) : Prop where
  | loading (hl : listed) (he : e = fresh)
  | loaded (hl : listed) (he : e.Loaded)
  | gone (hl : ¬ listed) (he : e.Gone)

/-- Holds nothing, for it is still loading or gone. -/
def Blank (e : Entry) : Prop := e = fresh ∨ e.Gone

theorem Gone.blank {e : Entry} (he : e.Gone) : e.Blank := .inr he

theorem Blank.refCount {e : Entry} (he : e.Blank) : e.refCount = 0 := by
  rcases he with rfl | he
  · rfl
  · exact he.refCount

theorem Loaded.not_blank {e : Entry} (he : e.Loaded) : ¬ e.Blank := by
  rintro (rfl | hg)
  · rcases he.state with h | h <;> cases h
  · rcases he.state with h | h <;> rw [hg.state] at h <;> cases h

theorem Gone.ne_fresh {e : Entry} (he : e.Gone) : e ≠ fresh := by
  rintro rfl
  cases he.state

variable {e : Entry} {listed : Prop}

theorem Settled.mono {listed' : Prop} (he : e.Settled listed)
    (hl : listed ↔ listed') : e.Settled listed' := by
  cases he with
  | loading h he => exact .loading (hl.1 h) he
  | loaded h he => exact .loaded (hl.1 h) he
  | gone h he => exact .gone (fun h' => h (hl.2 h')) he

theorem Settled.gone_of_not_listed (he : e.Settled listed) (hl : ¬ listed) :
    e.Gone := by
  cases he with
  | loading h _ => exact absurd h hl
  | loaded h _ => exact absurd h hl
  | gone _ he => exact he

theorem Settled.listed_of_fresh (he : fresh.Settled listed) : listed := by
  cases he with
  | loading hl _ => exact hl
  | loaded hl _ => exact hl
  | gone _ he => exact absurd rfl he.ne_fresh

theorem Settled.blank_or_loaded (he : e.Settled listed) :
    e.Blank ∨ listed ∧ e.Loaded := by
  cases he with
  | loading _ he => exact .inl (.inl he)
  | loaded h he => exact .inr ⟨h, he⟩
  | gone _ he => exact .inl he.blank

/-- The entry of a slot that was never made. -/
theorem settled_unmade (hl : ¬ listed) :
    Settled { state := .unloaded } listed :=
  .gone hl ⟨rfl, rfl, rfl⟩

end Entry

/-! ### Sections -/

/-- Does nothing, and leaves the entry as it is. -/
structure Section.Idle {α : Type} (e : Entry) (sec : Section α) : Prop where
  calls : sec.calls = []
  entry : sec.entry = e
  evicts : sec.evicts = false

theorem Entry.answering_idle {α : Type} (e : Entry) (a : α) :
    (e.answering a).Idle e :=
  ⟨rfl, rfl, rfl⟩

/-- Has not been filled yet. -/
def Entry.Waiting (e : Entry) : Prop := e.state = .loading ∨ e.state = .loaded

/-- A callback is about the handle; while it runs, the entry counts what was
found, and neither seems untouched nor gone. -/
structure Call.Fits (h : Handle) (e : Entry) (call : Call) : Prop where
  handle : call.callback.handle = h
  refCount : call.entry.refCount = e.refCount
  waiting : call.entry.Waiting ↔ e.Waiting
  not_loading : call.entry.state ≠ .loading
  not_unloaded : call.entry.state ≠ .unloaded

/-- What the callbacks of a section and its end have to do with the entry that
it found. -/
structure Section.Tidy {α : Type} (h : Handle) (e : Entry) (sec : Section α) :
    Prop where
  calls : ∀ call ∈ sec.calls, call.Fits h e
  /-- The resource stays loaded, or it is evicted. -/
  after : sec.entry.Loaded ∧ sec.evicts = false ∨
    sec.entry.Gone ∧ sec.evicts = true

namespace Section.Tidy

variable {α : Type} {h : Handle} {e : Entry} {sec : Section α}

theorem loaded (ht : sec.Tidy h e) (hev : sec.evicts = false) :
    sec.entry.Loaded := by
  rcases ht.after with ⟨hd, -⟩ | ⟨-, hev'⟩
  · exact hd
  · rw [hev] at hev'
    cases hev'

theorem gone (ht : sec.Tidy h e) (hev : sec.evicts = true) :
    sec.entry.Gone := by
  rcases ht.after with ⟨-, hev'⟩ | ⟨hg, -⟩
  · rw [hev] at hev'
    cases hev'
  · exact hg

end Section.Tidy

namespace Entry

variable {h : Handle} {e : Entry}

theorem Loaded.answering_tidy {α : Type} (he : e.Loaded) (a : α) :
    (e.answering a).Tidy h e :=
  ⟨by simp [answering], .inl ⟨he, rfl⟩⟩

theorem mem_callHeld {callback : Representation → Callback} {during : Entry}
    {call : Call} (hc : call ∈ e.callHeld callback during) :
    ∃ r, e.held = some r ∧ call = ⟨callback r, during⟩ := by
  unfold callHeld at hc
  cases hr : e.held with
  | none => simp [hr] at hc
  | some r => exact ⟨r, rfl, by simpa [hr] using hc⟩

theorem Loaded.not_waiting (he : e.Loaded) : ¬ e.Waiting := by
  rcases he.state with h | h <;> simp [Waiting, h]

theorem fresh_waiting : fresh.Waiting := .inl rfl

theorem Loaded.fits (he : e.Loaded) {call : Call}
    (hh : call.callback.handle = h) (hr : call.entry.refCount = e.refCount)
    (hs : call.entry.state = .online ∨ call.entry.state = .offline ∨
      call.entry.state = .unloading) :
    call.Fits h e := by
  refine ⟨hh, hr, iff_of_false ?_ he.not_waiting, ?_, ?_⟩
  · rcases hs with hs | hs | hs <;> simp [Waiting, hs]
  · rcases hs with hs | hs | hs <;> simp [hs]
  · rcases hs with hs | hs | hs <;> simp [hs]

theorem Loaded.release_tidy (he : e.Loaded) : e.release.Tidy h e :=
  ⟨by simp [release], .inl ⟨⟨he.state, he.held, he.failure⟩, rfl⟩⟩

theorem Loaded.takeOffline_tidy (he : e.Loaded) (kind? : Option Kind) :
    (e.takeOffline h kind?).Tidy h e := by
  unfold takeOffline
  rcases he.state with hs | hs <;> simp only [hs]
  · cases kind? with
    | none => exact he.answering_tidy _
    | some k =>
      refine ⟨fun call hc => ?_, .inl ⟨⟨.inr rfl, he.held, he.failure⟩, rfl⟩⟩
      obtain ⟨r, -, rfl⟩ := mem_callHeld hc
      exact he.fits rfl rfl (.inl hs)
  · exact he.answering_tidy _

theorem Loaded.bringOnline_tidy (he : e.Loaded) (kind? : Option Kind) :
    (e.bringOnline h kind?).Tidy h e := by
  unfold bringOnline
  rcases he.state with hs | hs <;> simp only [hs]
  · exact he.answering_tidy _
  · cases kind? with
    | none => exact he.answering_tidy _
    | some k =>
      refine ⟨fun call hc => ?_, .inl ⟨⟨.inl rfl, he.held, he.failure⟩, rfl⟩⟩
      obtain ⟨r, -, rfl⟩ := mem_callHeld hc
      exact he.fits rfl rfl (.inr (.inl hs))

theorem Loaded.replace_tidy (he : e.Loaded) (kind : Kind) (old : Representation)
    (bytes : List UInt8) : (e.replace h kind old bytes).Tidy h e := by
  unfold replace
  cases kind.reload h old.content bytes with
  | ok content =>
    refine ⟨fun call hc => ?_, .inl ⟨⟨.inl rfl, rfl, he.failure⟩, rfl⟩⟩
    by_cases hs : e.state = .online <;> simp [hs] at hc
    · rcases hc with rfl | rfl | rfl
      · exact he.fits rfl rfl (.inl hs)
      · exact he.fits rfl rfl (.inr (.inl rfl))
      · exact he.fits rfl rfl (.inr (.inl rfl))
    · rcases hc with rfl | rfl <;> exact he.fits rfl rfl (.inr (.inl rfl))
  | error f =>
    refine ⟨fun call hc => ?_, .inl ⟨he, rfl⟩⟩
    by_cases hs : e.state = .online <;> simp [hs] at hc
    · rcases hc with rfl | rfl | rfl
      · exact he.fits rfl rfl (.inl hs)
      · exact he.fits rfl rfl (.inr (.inl rfl))
      · exact he.fits rfl rfl (.inr (.inl rfl))
    · subst hc
      exact he.fits rfl rfl (.inr (.inl rfl))

theorem Loaded.reload_tidy (he : e.Loaded) (kind? : Option Kind)
    (bytes : List UInt8) : (e.reload h kind? bytes).Tidy h e := by
  unfold reload
  cases kind? with
  | none => exact he.answering_tidy _
  | some kind =>
    obtain ⟨old, hold⟩ := Option.isSome_iff_exists.1 he.held
    rcases he.state with hs | hs <;> simp only [hs, hold]
    · exact he.replace_tidy kind old bytes
    · exact he.replace_tidy kind old bytes

theorem Loaded.unload_tidy (he : e.Loaded) (kind? : Option Kind) :
    (e.unload h kind?).Tidy h e := by
  unfold unload
  cases kind? with
  | none => exact he.answering_tidy _
  | some kind =>
    obtain ⟨r, hr⟩ := Option.isSome_iff_exists.1 he.held
    rcases he.state with hs | hs <;> simp only [hs, callHeld, hr]
    · refine ⟨fun call hc => ?_, .inr ⟨⟨rfl, rfl, rfl⟩, rfl⟩⟩
      simp at hc
      rcases hc with rfl | rfl
      · exact he.fits rfl rfl (.inl hs)
      · exact he.fits rfl rfl (.inr (.inr rfl))
    · refine ⟨fun call hc => ?_, .inr ⟨⟨rfl, rfl, rfl⟩, rfl⟩⟩
      simp at hc
      subst hc
      exact he.fits rfl rfl (.inr (.inr rfl))

end Entry

namespace Visit

variable {h : Handle} {e : Entry} {kind? : Option Kind}

theorem inside_tidy (v : Visit) (he : e.Loaded) :
    (v.inside h kind? e).Tidy h e := by
  cases v with
  | get => exact he.answering_tidy _
  | state => exact he.answering_tidy _
  | refCount => exact he.answering_tidy _
  | release => exact he.release_tidy
  | offline => exact he.takeOffline_tidy kind?
  | online => exact he.bringOnline_tidy kind?
  | reload bytes => exact he.reload_tidy kind? bytes
  | unload => exact he.unload_tidy kind?

/-- An operation leaves an entry alone that holds nothing. -/
theorem inside_idle (v : Visit) (he : e.Blank) :
    (v.inside h kind? e).Idle e := by
  have hs : e.state = .loading ∨ e.state = .unloaded := by
    rcases he with rfl | he
    · exact .inl rfl
    · exact .inr he.state
  cases v with
  | get => exact e.answering_idle _
  | state => exact e.answering_idle _
  | refCount => exact e.answering_idle _
  | release =>
    have hz := he.refCount
    obtain ⟨state, held, count, failure⟩ := e
    subst hz
    exact ⟨rfl, rfl, rfl⟩
  | offline =>
    rcases hs with hs | hs <;>
      simpa [inside, Entry.takeOffline, hs] using e.answering_idle _
  | online =>
    rcases hs with hs | hs <;>
      simpa [inside, Entry.bringOnline, hs] using e.answering_idle _
  | reload bytes =>
    cases kind? with
    | none => exact e.answering_idle _
    | some kind =>
      rcases hs with hs | hs <;>
        simpa [inside, Entry.reload, hs] using e.answering_idle _
  | unload =>
    cases kind? with
    | none => exact e.answering_idle _
    | some kind =>
      rcases hs with hs | hs <;>
        simpa [inside, Entry.unload, hs] using e.answering_idle _

end Visit

/-! ### The callbacks of an operation -/

/-- What came out of a callback is what the kind that it went to made of the
arguments. -/
def Callback.Faithful : Callback → Prop
  | .load k h bytes outcome => outcome.map (·.content) = k.load h bytes
  | .reload k h old bytes outcome =>
    outcome.map (·.content) = k.reload h old.content bytes
  | .online .. | .offline .. | .unload .. => True

/-- A callback is about the handle, goes to the kind and comes out as this has
it. -/
structure Call.Reaches (h : Handle) (kind? : Option Kind) (call : Call) :
    Prop where
  handle : call.callback.handle = h
  receiver : kind? = some call.callback.receiver
  faithful : call.callback.Faithful

section

variable {h : Handle} {e : Entry} {kind : Kind} {kind? : Option Kind}
  {call : Call}

theorem Entry.mem_calls_replace {old : Representation} {bytes : List UInt8}
    (hc : call ∈ (e.replace h kind old bytes).calls) :
    call.Reaches h (some kind) ∧
      (call.entry = e ∨ call.entry = { e with state := .offline }) := by
  unfold replace at hc
  cases hr : kind.reload h old.content bytes <;> simp only [hr] at hc <;>
    by_cases hs : e.state = .online <;> simp [hs] at hc
  · rcases hc with rfl | rfl | rfl
    · exact ⟨⟨rfl, rfl, trivial⟩, .inl rfl⟩
    · exact ⟨⟨rfl, rfl, hr.symm⟩, .inr rfl⟩
    · exact ⟨⟨rfl, rfl, trivial⟩, .inr rfl⟩
  · subst hc
    exact ⟨⟨rfl, rfl, hr.symm⟩, .inr rfl⟩
  · rcases hc with rfl | rfl | rfl
    · exact ⟨⟨rfl, rfl, trivial⟩, .inl rfl⟩
    · exact ⟨⟨rfl, rfl, hr.symm⟩, .inr rfl⟩
    · exact ⟨⟨rfl, rfl, trivial⟩, .inr rfl⟩
  · rcases hc with rfl | rfl
    · exact ⟨⟨rfl, rfl, hr.symm⟩, .inr rfl⟩
    · exact ⟨⟨rfl, rfl, trivial⟩, .inr rfl⟩

theorem Entry.mem_calls_unload (hc : call ∈ (e.unload h kind?).calls) :
    call.Reaches h kind? ∧
      (call.entry = e ∨ call.entry =
        { e with state := .unloading, held := none }) := by
  cases kind? with
  | none => cases hc
  | some kind =>
    have hgone : ∀ call ∈
        (if e.state = .online then e.callHeld (.offline kind h) e else []) ++
          e.callHeld (.unload kind h)
            { e with state := .unloading, held := none },
        call.Reaches h (some kind) ∧
          (call.entry = e ∨
            call.entry = { e with state := .unloading, held := none }) := by
      intro call hc
      rcases List.mem_append.1 hc with hc | hc
      · split at hc
        · obtain ⟨r, -, rfl⟩ := mem_callHeld hc
          exact ⟨⟨rfl, rfl, trivial⟩, .inl rfl⟩
        · cases hc
      · obtain ⟨r, -, rfl⟩ := mem_callHeld hc
        exact ⟨⟨rfl, rfl, trivial⟩, .inr rfl⟩
    unfold unload at hc
    dsimp only at hc
    split at hc
    · exact hgone call hc
    · exact hgone call hc
    · cases hc
    · cases hc

/-- Every callback of an operation is about its handle and goes to the kind that
it was told of.  It finds the entry as it was, or on its way offline or out. -/
theorem Visit.mem_calls_inside {v : Visit}
    (hc : call ∈ (v.inside h kind? e).calls) :
    call.Reaches h kind? ∧
      (call.entry = e ∨
        call.entry = { e with state := .offline } ∧ e.held.isSome ∨
        call.entry = { e with state := .unloading, held := none }) := by
  cases v with
  | offline =>
    simp only [inside, Entry.takeOffline] at hc
    split at hc
    · split at hc
      · cases hc
      · obtain ⟨r, -, rfl⟩ := Entry.mem_callHeld hc
        exact ⟨⟨rfl, rfl, trivial⟩, .inl rfl⟩
    · cases hc
    · cases hc
    · cases hc
  | online =>
    simp only [inside, Entry.bringOnline] at hc
    split at hc
    · cases hc
    · split at hc
      · cases hc
      · obtain ⟨r, -, rfl⟩ := Entry.mem_callHeld hc
        exact ⟨⟨rfl, rfl, trivial⟩, .inl rfl⟩
    · cases hc
  | reload bytes =>
    have hreplace : ∀ {kind : Kind} {old : Representation}, e.held = some old →
        call ∈ (e.replace h kind old bytes).calls → call.Reaches h (some kind) ∧
          (call.entry = e ∨
            call.entry = { e with state := .offline } ∧ e.held.isSome ∨
            call.entry = { e with state := .unloading, held := none }) := by
      intro kind old hold hc
      obtain ⟨hh, he | he⟩ := Entry.mem_calls_replace hc
      · exact ⟨hh, .inl he⟩
      · exact ⟨hh, .inr (.inl ⟨he, Option.isSome_of_eq_some hold⟩)⟩
    simp only [inside, Entry.reload] at hc
    split at hc
    · cases hc
    · split at hc
      · rename_i hold
        exact hreplace hold hc
      · rename_i hold
        exact hreplace hold hc
      · cases hc
  | unload =>
    obtain ⟨hh, he⟩ := Entry.mem_calls_unload hc
    exact ⟨hh, he.imp_right .inr⟩
  | _ => cases hc

end

/-! ### Errands -/

namespace Errand

variable {r : Request} {errand : Errand r} {s : SlotId} {e : Entry}
  {sec : Section r.Reply} {h : Handle} {listed : Prop}

/-- Ends what only the thread that made the slot can end. -/
def owns {r : Request} : Errand r → Bool
  | .settle _ | .introduce => true
  | _ => false

/-- Whoever has not made the slot leaves an entry alone that holds nothing. -/
theorem idle_of_blank (ho : errand.owns = false) (he : e.Blank)
    (hs : errand.section? s e = some sec) : sec.Idle e := by
  cases errand with
  | settle outcome => cases ho
  | introduce => cases ho
  | join =>
    rcases he with rfl | he
    · cases hs
    · simp only [section?, Entry.join?, he.state, Option.map_eq_some_iff] at hs
      obtain ⟨f, -, rfl⟩ := hs
      exact e.answering_idle _
  | visit kind? =>
    cases hs
    exact Visit.inside_idle _ he
  | look =>
    cases hs
    exact e.answering_idle _

theorem tidy_of_loaded (ho : errand.owns = false) (he : e.Loaded)
    (hr : r.handle? = some h) (hs : errand.section? s e = some sec) :
    sec.Tidy h e := by
  cases errand with
  | settle outcome => cases ho
  | introduce => cases ho
  | join =>
    have hsec :
        sec = { entry := { e with refCount := e.refCount + 1 }
                answer := .ok () } := by
      rcases he.state with h | h <;>
        simpa [section?, Entry.join?, h] using hs.symm
    subst hsec
    exact ⟨by simp, .inl ⟨⟨he.state, he.held, he.failure⟩, rfl⟩⟩
  | visit kind? =>
    cases hs
    cases hr
    exact Visit.inside_tidy _ he
  | look =>
    cases hs
    exact he.answering_tidy _

/-- Ending a load fills the slot, or evicts it. -/
theorem settle_tidy (h : Handle) (k : Kind)
    (outcome : Except Failure Representation) :
    (Entry.fresh.settle h k outcome).Tidy h Entry.fresh := by
  cases outcome with
  | ok r =>
    refine ⟨fun call hc => ?_, .inl ⟨⟨.inl rfl, rfl, rfl⟩, rfl⟩⟩
    simp only [Entry.settle, List.mem_singleton] at hc
    subst hc
    exact ⟨rfl, rfl,
      iff_of_true (.inr rfl) Entry.fresh_waiting, by simp, by simp⟩
  | error f => exact ⟨by simp [Entry.settle], .inr ⟨⟨rfl, rfl, rfl⟩, rfl⟩⟩

theorem tidy_of_fresh (ho : errand.owns = true) (hr : r.handle? = some h)
    (hs : errand.section? s Entry.fresh = some sec) :
    sec.Tidy h Entry.fresh := by
  cases errand with
  | settle outcome =>
    cases hs
    cases hr
    exact settle_tidy _ _ outcome
  | introduce =>
    cases hs
    cases hr
    exact settle_tidy _ _ _
  | join => cases ho
  | visit kind? => cases ho
  | look => cases ho

/-- The kind that an errand calls, if it was told of one. -/
def receiver? {r : Request} : Errand r → Option Kind
  | .settle (k := k) _ | .introduce (k := k) => some k
  | .visit kind? => kind?
  | .join | .look => none

/-- Every callback of a section goes to the kind of its errand. -/
theorem reaches (hr : r.handle? = some h) (hs : errand.section? s e = some sec)
    {call : Call} (hc : call ∈ sec.calls) :
    call.Reaches h errand.receiver? := by
  cases errand with
  | settle outcome =>
    cases hs
    cases hr
    cases outcome with
    | ok x =>
      rw [List.mem_singleton.1 hc]
      exact ⟨rfl, rfl, trivial⟩
    | error f => cases hc
  | introduce =>
    cases hs
    cases hr
    rw [List.mem_singleton.1 hc]
    exact ⟨rfl, rfl, trivial⟩
  | join =>
    simp only [section?, Entry.join?] at hs
    split at hs
    · cases hs
      cases hc
    · cases hs
      cases hc
    · obtain ⟨f, -, rfl⟩ := Option.map_eq_some_iff.1 hs
      cases hc
  | visit kind? =>
    cases hs
    cases hr
    exact (Visit.mem_calls_inside hc).1
  | look =>
    cases hs
    cases hc

/-- An errand does something only to a slot that is listed: to what is loaded,
or to a slot that its thread made. -/
theorem idle_or_tidy (he : e.Settled listed)
    (ho : errand.owns = true → e = Entry.fresh) (hr : r.handle? = some h)
    (hs : errand.section? s e = some sec) :
    (errand.owns = false ∧ e.Blank ∧ sec.Idle e) ∨ (listed ∧ sec.Tidy h e) := by
  cases howns : errand.owns with
  | true =>
    have hf : e = Entry.fresh := ho howns
    subst hf
    exact .inr ⟨he.listed_of_fresh, tidy_of_fresh howns hr hs⟩
  | false =>
    rcases he.blank_or_loaded with hb | ⟨hl, hd⟩
    · exact .inl ⟨rfl, hb, idle_of_blank howns hb hs⟩
    · exact .inr ⟨hl, tidy_of_loaded howns hd hr hs⟩

/-- A section that began with a settled entry ends with one. -/
theorem settled_after (he : e.Settled listed)
    (ho : errand.owns = true → e = Entry.fresh) (hr : r.handle? = some h)
    (hs : errand.section? s e = some sec) :
    sec.entry.Settled (listed ∧ sec.evicts = false) := by
  rcases idle_or_tidy he ho hr hs with ⟨-, -, hi⟩ | ⟨hl, ht⟩
  · rw [hi.entry]
    exact he.mono (by simp [hi.evicts])
  · rcases ht.after with ⟨hd, hev⟩ | ⟨hg, hev⟩
    · exact .loaded ⟨hl, hev⟩ hd
    · exact .gone (by simp [hev]) hg

/-- Only a slot that is listed is evicted. -/
theorem listed_of_evicts (he : e.Settled listed)
    (ho : errand.owns = true → e = Entry.fresh) (hr : r.handle? = some h)
    (hs : errand.section? s e = some sec) (hev : sec.evicts = true) :
    listed := by
  rcases idle_or_tidy he ho hr hs with ⟨-, -, hi⟩ | ⟨hl, -⟩
  · rw [hi.evicts] at hev
    cases hev
  · exact hl

end Errand

end ResourceHost
