import ResourceHost.Proofs.Threads.Points

/-!
# What a move does to the slots

A move opens a slot, sets the entry of a slot that its thread has locked, takes
that slot out of the table, or touches no slot at all: `Moves.effect`.  What
it does that others may count on is a `Deed`.  From the effects follow the
frame facts: what a move leaves as it was.
-/

namespace ResourceHost

/-! ### Deeds -/

/-- What is done to a slot. -/
inductive Deed where
  /-- Made for a load, which starts. -/
  | opened
  /-- Made for a content from outside the cache. -/
  | inserted
  /-- Filled, with the first reference. -/
  | settled
  /-- Evicted, for its load failed. -/
  | failed
  /-- One more reference is taken. -/
  | joined
  /-- A reference is dropped, if there is one. -/
  | released
  /-- Evicted by an unload. -/
  | unloaded
  deriving DecidableEq, Repr

/-- What an operation has done in a section. -/
def Visit.deed? : Visit → Bool → Option Deed
  | .release, _ => some .released
  | _, true => some .unloaded
  | _, false => none

/-- What an errand has done in a section, by its answer and whether it
evicts. -/
def Errand.deed? {r : Request} : Errand r → r.Reply → Bool → Option Deed
  | .settle (.ok _), _, _ => some .settled
  | .settle (.error _), _, _ => some .failed
  | .join, .ok _, _ => some .joined
  | .join, .error _, _ => none
  | .introduce, _, _ => some .settled
  | .visit (v := v) _, _, evicts => v.deed? evicts
  | .look, _, _ => none

/-- What a thread has done to a slot as it lets it go. -/
def Hold.deed? {r : Request} (hold : Hold r) : Option Deed :=
  hold.errand.deed? hold.sec.answer hold.sec.evicts

/-- The slot that a request makes as it begins. -/
def Request.deed? (c : Cache) : Request → Option (SlotId × Deed)
  | .acquire h _ => if c.isListed h then none else some (c.nextSlot h, .opened)
  | .add h _ _ => if c.isListed h then none else some (c.nextSlot h, .inserted)
  | _ => none

/-- What a thread does to a slot in its next step, if it moves. -/
def Point.deed? (c : Cache) {r : Request} : Point r → Option (SlotId × Deed)
  | .begun => r.deed? c
  | .inside hold [] =>
    if hold.sec.evicts then none else hold.deed?.map fun d => (hold.slot, d)
  | .evicting hold => hold.deed?.map fun d => (hold.slot, d)
  | _ => none

/-! ### What befalls a handle -/

/-- What befalls a handle, as its kind sees it. -/
inductive Happening where
  /-- A content from outside the cache is brought for it. -/
  | brought (x : Representation)
  | called (callback : Callback)

/-- The handle that is befallen. -/
def Happening.handle : Happening → Handle
  | .brought x => x.object.slot.handle
  | .called cb => cb.handle

/-- What a request brings for the slot that it makes as it begins. -/
def Request.brings? (c : Cache) : Request → Option Representation
  | .add h _ content =>
    if c.isListed h then
      none
    else some (Entry.firstObject (c.nextSlot h) content)
  | _ => none

/-- What a thread brings in its next step, if it moves. -/
def Point.brings? (c : Cache) {r : Request} : Point r → Option Representation
  | .begun => r.brings? c
  | _ => none

/-- The callback that a move begins. -/
def Move.callback? {r : Request} (mv : Move r) : Option Callback :=
  mv.point?.bind Point.callback?

/-- What befalls a handle by a move. -/
def Move.happening? {r : Request} (p : Point r) (c : Cache) (mv : Move r) :
    Option Happening :=
  match p.brings? c with
  | some x => some (.brought x)
  | none => mv.callback?.map .called

namespace Errand

variable {r : Request} {errand : Errand r} {s : SlotId} {e : Entry}
  {sec : Section r.Reply}

theorem deed?_ne_opened (errand : Errand r) (a : r.Reply) (evicts : Bool) :
    errand.deed? a evicts ≠ some .opened ∧
      errand.deed? a evicts ≠ some .inserted := by
  cases errand with
  | settle outcome => cases outcome <;> exact ⟨nofun, nofun⟩
  | join => cases a <;> exact ⟨nofun, nofun⟩
  | introduce => exact ⟨nofun, nofun⟩
  | @visit _ v _ => cases v <;> cases evicts <;> exact ⟨nofun, nofun⟩
  | look => exact ⟨nofun, nofun⟩

/-- What evicts has done so for a failed load or for an unload. -/
theorem evicts_iff_deed? (hs : errand.section? s e = some sec) :
    sec.evicts = true ↔ errand.deed? sec.answer sec.evicts = some .failed ∨
      errand.deed? sec.answer sec.evicts = some .unloaded := by
  cases errand with
  | settle outcome => cases outcome <;> cases hs <;> simp [deed?, Entry.settle]
  | join =>
    have hev : sec.evicts = false := by
      simp only [section?, Entry.join?] at hs
      split at hs
      · cases hs
        rfl
      · cases hs
        rfl
      · obtain ⟨f, -, rfl⟩ := Option.map_eq_some_iff.1 hs
        rfl
    rw [hev]
    cases sec.answer <;> simp [deed?]
  | introduce =>
    cases hs
    simp [deed?, Entry.settle]
  | @visit _ v kind? =>
    cases hs
    cases hev : (v.inside _ kind? e).evicts with
    | false => cases v <;> simp [deed?, Visit.deed?]
    | true =>
      cases v with
      | release => cases hev
      | _ => simp [deed?, Visit.deed?]
  | look =>
    cases hs
    simp [deed?, Entry.answering]

end Errand

/-! ### Effects -/

/-- The slot that a thread carries out a section on. -/
def Point.hold? {r : Request} : Point r → Option SlotId
  | .inside hold _ | .calling hold _ _ | .evict hold | .evicting hold =>
    some hold.slot
  | _ => none

/-- Makes a slot for a handle that has none. -/
def Request.Opens (h : Handle) (r : Request) : Prop :=
  ∃ k, r = .acquire h k ∨ ∃ content, r = .add h k content

theorem Request.Opens.handle? {h : Handle} {r : Request} (hr : r.Opens h) :
    r.handle? = some h := by
  obtain ⟨k, rfl | ⟨content, rfl⟩⟩ := hr
  · rfl
  · rfl

/-- What a move, with its deed, does to the slots of a cache. -/
inductive Effect (c : Cache) :
    {r : Request} → Point r → Move r → Option (SlotId × Deed) → Prop where
  /-- The slots stay as they are. -/
  | still {r : Request} {p : Point r} {mv : Move r}
      (hc : (mv.cacheAfter c).shelves = c.shelves) : Effect c p mv none
  /-- A slot is made and listed for a handle that had none. -/
  | opens {r : Request} {h : Handle} {q : Point r} {d : Deed} (hr : r.Opens h)
      (hs : c.find? h = none) (hq : q.owner? = some (c.nextSlot h))
      (hl : q.slot? = none) (hd : d = .opened ∨ d = .inserted) :
      Effect c (.begun (r := r)) (.go q (c.openSlot h)) (some (c.nextSlot h, d))
  /-- A callback begins. -/
  | calls {r : Request} {hold : Hold r} {call : Call} {rest : List Call} :
      Effect c (.inside hold (call :: rest))
        (.go (.calling hold call rest)
          ((c.record [call.callback]).setEntry hold.slot call.entry))
        none
  /-- A slot is let go. -/
  | leaves {r : Request} {hold : Hold r} (hev : hold.sec.evicts = false) :
      Effect c (.inside hold []) (.leave hold c)
        (hold.deed?.map fun d => (hold.slot, d))
  /-- A slot is evicted and let go. -/
  | evicts {r : Request} {hold : Hold r} :
      Effect c (.evicting hold) (.leave hold (c.evict hold.slot))
        (hold.deed?.map fun d => (hold.slot, d))

namespace Moves

variable {conduct : Conduct} {r : Request} {free : Free} {c : Cache}
  {p : Point r} {mv : Move r}

@[simp] theorem cacheAfter_leave (hold : Hold r) (c c' : Cache) :
    (Move.leave hold c').cacheAfter c =
      c'.setEntry hold.slot hold.sec.entry := by
  unfold Move.leave
  dsimp only
  split <;> rfl

/-- A request about no handle leaves the slots alone. -/
theorem shelves_run_of_handle?_eq_none (hr : r.handle? = none) (c : Cache) :
    (r.run c).2.shelves = c.shelves := by
  cases r with
  | register t k =>
    simp only [Request.run, Cache.register]
    split <;> rfl
  | acquire h k => cases hr
  | add h k content => cases hr
  | visit h v => cases hr
  | stateOf s => cases hr
  | kind t => rfl
  | autoload => rfl
  | setAutoload on => rfl
  | isListed h => rfl
  | handles => rfl
  | slots => rfl
  | read h => rfl

/-- A request that needs a leaf lock begins under it. -/
theorem begun_of_opening (ho : p.Opening) {l : Leaf} (hl : r.leaf? = some l) :
    p = .begun := by
  rcases ho with ⟨_, hn⟩ | rfl
  · exact absurd (hl.symm.trans hn) (by simp)
  · rfl

theorem deed?_of_opening (ho : p.Opening) (hr : r.deed? c = none) :
    p.deed? c = none := by
  rcases ho with ⟨rfl, -⟩ | rfl
  · rfl
  · exact hr

theorem deed?_eq_none_of_listed {h : Handle} {s : SlotId}
    (hr : r.handle? = some h) (hs : c.find? h = some s) : r.deed? c = none := by
  cases r <;> cases hr <;> simp [Request.deed?, Cache.isListed_eq_isSome, hs]

theorem deed?_eq_none_of_handle? (hr : r.handle? = none) :
    r.deed? c = none := by
  cases r <;> first | rfl | cases hr

/-- Every move has one of the effects, and its deed. -/
theorem effect (h : Moves free c p mv) : Effect c p mv (p.deed? c) := by
  -- To begin has a deed only if a slot is made, and to hold a slot only when it
  -- is let go.
  cases h with
  | answer ho hr =>
    rw [deed?_of_opening ho (deed?_eq_none_of_handle? hr)]
    exact .still (shelves_run_of_handle?_eq_none hr c)
  | look ho =>
    rw [deed?_of_opening ho rfl]
    exact .still rfl
  | join ho hs =>
    rw [deed?_of_opening ho (deed?_eq_none_of_listed rfl hs)]
    exact .still rfl
  | @load h k _ ho hs =>
    obtain rfl := begun_of_opening ho (l := .table) rfl
    have hd : (Request.acquire h k).deed? c = some (c.nextSlot h, .opened) := by
      simp [Request.deed?, Cache.isListed_eq_isSome, hs]
    show Effect c .begun _ ((Request.acquire h k).deed? c)
    rw [hd]
    exact .opens ⟨k, .inl rfl⟩ hs rfl rfl (.inl rfl)
  | refuse ho hs =>
    rw [deed?_of_opening ho (deed?_eq_none_of_listed rfl hs)]
    exact .still rfl
  | @insert h k content _ ho hs =>
    obtain rfl := begun_of_opening ho (l := .table) rfl
    have hd : (Request.add h k content).deed? c =
        some (c.nextSlot h, .inserted) := by
      simp [Request.deed?, Cache.isListed_eq_isSome, hs]
    show Effect c .begun _ ((Request.add h k content).deed? c)
    rw [hd]
    exact .opens ⟨k, .inr ⟨content, rfl⟩⟩ hs rfl rfl (.inr rfl)
  | absent ho hs =>
    rw [deed?_of_opening ho rfl]
    exact .still rfl
  | find ho hs hv =>
    rw [deed?_of_opening ho rfl]
    exact .still rfl
  | findAndAsk ho hs hv =>
    rw [deed?_of_opening ho rfl]
    exact .still rfl
  | call => exact .calls
  | leave hev =>
    simp only [Point.deed?, hev, Bool.false_eq_true, if_false]
    exact .leaves hev
  | wait hev =>
    simp only [Point.deed?, hev, if_true]
    exact .still rfl
  | evict => exact .evicts
  | turn hl hf => exact .still rfl
  | ask hf => exact .still rfl
  | told => exact .still rfl
  | toldAndWork hs => exact .still rfl
  | toldAndStart hs => exact .still rfl
  | unread hr => exact .still rfl
  | read hr => exact .still rfl
  | loaded hk => exact .still rfl
  | rejected hk => exact .still rfl
  | park hf hw => exact .still rfl
  | hold hf hc => exact .still rfl
  | work hf hw hc hs => exact .still rfl
  | restart hf hw hc hs => exact .still rfl
  | back => exact .still rfl
  | take hf => exact .still rfl
  | rouse => exact .still rfl

end Moves

/-! ### What an effect leaves as it was -/

namespace Effect

variable {conduct : Conduct} {r : Request} {c : Cache} {p : Point r}
  {mv : Move r} {d : Option (SlotId × Deed)} {s : SlotId}

theorem made (h : Effect c p mv d) (hs : c.Made s) :
    (mv.cacheAfter c).Made s := by
  cases h with
  | still hc => exact (Cache.made_of_shelves hc s).2 hs
  | opens hr hf hq hl hd => exact c.made_openSlot.2 (.inl hs)
  | calls => exact Cache.made_setEntry.2 hs
  | leaves hev =>
    rw [Moves.cacheAfter_leave]
    exact Cache.made_setEntry.2 hs
  | evicts =>
    rw [Moves.cacheAfter_leave]
    exact Cache.made_setEntry.2 (Cache.made_evict.2 hs)

/-- A slot is made only to be listed, for a handle that the request is about. -/
theorem made_or_opened (h : Effect c p mv d) (hs : (mv.cacheAfter c).Made s) :
    c.Made s ∨ r.Opens s.handle ∧ (mv.cacheAfter c).entry s = Entry.fresh ∧
      (mv.cacheAfter c).Listed s := by
  cases h with
  | still hc => exact .inl ((Cache.made_of_shelves hc s).1 hs)
  | opens hr hf hq hl hd =>
    rcases c.made_openSlot.1 hs with hs | rfl
    · exact .inl hs
    · exact .inr ⟨hr, c.entry_openSlot_nextSlot _, c.listed_openSlot_nextSlot _⟩
  | calls => exact .inl (Cache.made_setEntry.1 hs)
  | leaves hev =>
    rw [Moves.cacheAfter_leave] at hs
    exact .inl (Cache.made_setEntry.1 hs)
  | evicts =>
    rw [Moves.cacheAfter_leave] at hs
    exact .inl (Cache.made_evict.1 (Cache.made_setEntry.1 hs))

/-- A slot is left alone by whoever carries out no section on it. -/
theorem keeps (h : Effect c p mv d) (hs : c.Made s) (hp : p.hold? ≠ some s) :
    c.Keeps (mv.cacheAfter c) s := by
  have hne : ∀ {hold : Hold r}, p.hold? = some hold.slot → s ≠ hold.slot := by
    rintro hold hh rfl
    exact hp hh
  cases h with
  | still hc => exact .of_shelves hc s
  | opens hr hf hq hl hd => exact Cache.keeps_openSlot hs hf
  | calls =>
    exact (Cache.keeps_record _ s).trans
      (Cache.keeps_setEntry_of_ne (hne rfl) _)
  | leaves hev =>
    rw [Moves.cacheAfter_leave]
    exact Cache.keeps_setEntry_of_ne (hne rfl) _
  | evicts =>
    rw [Moves.cacheAfter_leave]
    exact (Cache.keeps_evict_of_ne (hne rfl)).trans
      (Cache.keeps_setEntry_of_ne (hne rfl) _)

/-- A slot that holds nothing is left alone by whoever did not make it. -/
theorem keeps_of_blank (h : Effect c p mv d) (hp : p.Sound conduct c)
    (hs : c.Made s) (hb : (c.entry s).Blank) (ho : p.owner? ≠ some s) :
    c.Keeps (mv.cacheAfter c) s := by
  by_cases hh : p.hold? = some s
  · -- A section on it can only be idle: there is nothing to call, and it ends
    -- as it began.
    have hidle : ∀ {hold : Hold r} {calls : List Call} {found : Entry},
        hold.slot = s →
        p.owner? = (if hold.errand.owns then some hold.slot else none) →
        hold.Since conduct c found calls → hold.sec.Idle (c.entry s) := by
      intro hold calls found heq hown hsince
      subst heq
      have hf := hsince.found_of_blank hb
      rcases hsince.idle_or_tidy with ⟨-, -, hi⟩ | ⟨-, ht⟩
      · rw [hf]
        exact hi
      · have hno : hold.errand.owns = false := by
          cases hw : hold.errand.owns with
          | true => exact absurd (by rw [hown, hw]; rfl) ho
          | false => rfl
        rw [hf] at hb ⊢
        exact Errand.idle_of_blank hno hb hsince.does
    cases h with
    | still hc => exact .of_shelves hc s
    | opens hr hf hq hl hd => exact Cache.keeps_openSlot hs hf
    | @calls hold call rest =>
      obtain ⟨found, hsince⟩ := hp
      have hi := hidle (Option.some.inj hh) rfl hsince
      have hmem := hsince.tail.1
      rw [hi.calls] at hmem
      cases hmem
    | @leaves hold hev =>
      obtain ⟨found, hsince⟩ := hp
      obtain rfl : hold.slot = s := Option.some.inj hh
      rw [Moves.cacheAfter_leave]
      exact Cache.keeps_setEntry_self hs (hidle rfl rfl hsince).entry
    | @evicts hold =>
      obtain ⟨hev, found, hsince⟩ := hp
      have hi := hidle (Option.some.inj hh) rfl hsince
      rw [hi.evicts] at hev
      cases hev
  · exact h.keeps hs hh

end Effect

end ResourceHost
