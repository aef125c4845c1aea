import ResourceHost.Proofs.Threads.Outcomes

/-!
# What entries hold and what callers are given

What a load comes to stays in the entry: the resource, until a reload replaces
it or an unload drops it, or the failure.  So what is true of whatever loads
come to, and is kept by reloads, is true of whatever an entry holds, also while
its slot is locked, and of whatever a caller is given.
-/

namespace ResourceHost

/-! ### Entries -/

/-- What an entry keeps of its load is something of which `Q` is true, and an
entry that is loaded keeps a resource. -/
structure Entry.Stores (Q : Except Failure Representation → Prop) (e : Entry) :
    Prop where
  held : ∀ x, e.held = some x → Q (.ok x)
  failure : ∀ f, e.failure = some f → Q (.error f)
  full : e.state = .online ∨ e.state = .offline → e.held.isSome

/-- So it is while the callbacks of a section run, and at its end. -/
structure Section.Stores {α : Type} (Q : Except Failure Representation → Prop)
    (sec : Section α) : Prop where
  calls : ∀ call ∈ sec.calls, call.entry.Stores Q
  entry : sec.entry.Stores Q

namespace Entry.Stores

variable {Q : Except Failure Representation → Prop} {e : Entry} {h : Handle}

theorem fresh : Entry.fresh.Stores Q :=
  ⟨nofun, nofun, by rintro (hs | hs) <;> cases hs⟩

/-- The entry of a slot that was never made. -/
theorem unmade : Stores Q { state := .unloaded } :=
  ⟨nofun, nofun, by rintro (hs | hs) <;> cases hs⟩

theorem answering {α : Type} (he : e.Stores Q) (a : α) :
    (e.answering a).Stores Q :=
  ⟨by simp [Entry.answering], he⟩

theorem settle {k : Kind} {outcome : Except Failure Representation}
    (he : e.Stores Q) (ho : Q outcome) : (e.settle h k outcome).Stores Q := by
  cases outcome with
  | ok x =>
    refine ⟨fun call hcall => ?_, ?_, he.failure, fun _ => rfl⟩
    · rw [List.mem_singleton.1 hcall]
      exact ⟨he.held, he.failure, by rintro (hs | hs) <;> cases hs⟩
    · rintro x' hx
      cases hx
      exact ho
  | error f =>
    refine ⟨by simp [Entry.settle], he.held, ?_,
      by rintro (hs | hs) <;> cases hs⟩
    rintro f' hf
    cases hf
    exact ho

theorem join {sec : Section (Except Failure Unit)} (he : e.Stores Q)
    (hj : e.join? = some sec) : sec.Stores Q := by
  unfold join? at hj
  split at hj
  · cases hj
    exact ⟨by simp, he.held, he.failure, he.full⟩
  · cases hj
    exact ⟨by simp, he.held, he.failure, he.full⟩
  · obtain ⟨f, -, rfl⟩ := Option.map_eq_some_iff.1 hj
    exact he.answering _

/-- On its way offline. -/
theorem offline (he : e.Stores Q) (hfull : e.held.isSome) :
    Stores Q { e with state := .offline } :=
  ⟨he.held, he.failure, fun _ => hfull⟩

/-- On its way out. -/
theorem unloading (he : e.Stores Q) :
    Stores Q { e with state := .unloading, held := none } :=
  ⟨nofun, he.failure, by rintro (hs | hs) <;> cases hs⟩

theorem takeOffline (he : e.Stores Q) (kind? : Option Kind) :
    (e.takeOffline h kind?).entry.Stores Q := by
  unfold Entry.takeOffline
  split
  · rename_i hs
    split
    · exact he
    · exact he.offline (he.full (.inl hs))
  · exact he
  · exact he
  · exact he

theorem bringOnline (he : e.Stores Q) (kind? : Option Kind) :
    (e.bringOnline h kind?).entry.Stores Q := by
  unfold Entry.bringOnline
  split
  · exact he
  · rename_i hs
    split
    · exact he
    · exact ⟨he.held, he.failure, fun _ => he.full (.inr hs)⟩
  · exact he

/-- What replaces the old is stored; otherwise the old stays. -/
theorem replace {kind : Kind} {old : Representation} {bytes : List UInt8}
    (he : e.Stores Q)
    (hnew : ∀ content, kind.reload h old.content bytes = .ok content →
      Q (.ok (nextObject old content))) :
    (e.replace h kind old bytes).entry.Stores Q := by
  unfold Entry.replace
  cases hr : kind.reload h old.content bytes with
  | ok content =>
    refine ⟨fun x hx => ?_, he.failure, fun _ => rfl⟩
    cases hx
    exact hnew content hr
  | error f => exact he

theorem reload {kind? : Option Kind} {bytes : List UInt8} (he : e.Stores Q)
    (hnew : ∀ kind old content, kind? = some kind → Q (.ok old) →
      kind.reload h old.content bytes = .ok content →
        Q (.ok (nextObject old content))) :
    (e.reload h kind? bytes).entry.Stores Q := by
  unfold Entry.reload
  cases kind? with
  | none => exact he
  | some kind =>
    dsimp only
    split
    · rename_i old hs hold
      exact he.replace fun content =>
        hnew kind old content rfl (he.held old hold)
    · rename_i old hs hold
      exact he.replace fun content =>
        hnew kind old content rfl (he.held old hold)
    · exact he

theorem unload (he : e.Stores Q) (kind? : Option Kind) :
    (e.unload h kind?).entry.Stores Q := by
  have hgone :
      Stores Q { e with state := .unloaded, held := none, refCount := 0 } :=
    ⟨nofun, he.failure, by rintro (hs | hs) <;> cases hs⟩
  unfold Entry.unload
  cases kind? with
  | none => exact he
  | some kind =>
    dsimp only
    split
    · exact hgone
    · exact hgone
    · exact he
    · exact he

end Entry.Stores

/-! ### Answers -/

/-- The failure that an operation is answered with. -/
def Visit.failure? : (v : Visit) → v.Reply → Option Failure
  | .get, .error f => some f
  | .release, .error f => some f
  | .offline, .error f => some f
  | .online, .error f => some f
  | .reload _, .error f => some f
  | .unload, .error f => some f
  | _, _ => none

/-- The resource that an operation is answered with. -/
def Visit.given? : (v : Visit) → v.Reply → Option Representation
  | .get, .ok x => some x
  | _, _ => none

/-- Is answered as a caller may count on: a load fails with what it came to; an
operation fails for a missing resource or with refused bytes, and gives what a
load came to. -/
def Request.Granted (P : SlotId → Except Failure Representation → Prop) :
    (r : Request) → r.Reply → Prop
  | .acquire h _, a =>
    ∀ f, a = .error f → ∃ s : SlotId, s.handle = h ∧ P s (.error f)
  | .visit h v, a =>
    (∀ f, v.failure? a = some f →
        f = .notLoaded h ∨ ∃ cause, f = .reload h cause) ∧
      ∀ x, v.given? a = some x → ∃ s : SlotId, s.handle = h ∧ P s (.ok x)
  | _, _ => True

section

variable {P : SlotId → Except Failure Representation → Prop}

theorem Request.granted_of_handle? {r : Request} (hr : r.handle? = none)
    (a : r.Reply) : r.Granted P a := by
  cases r with
  | acquire h k => cases hr
  | visit h v => cases hr
  | _ => trivial

theorem Visit.granted_absent (h : Handle) (v : Visit) :
    (Request.visit h v).Granted P (v.absent h) := by
  refine ⟨fun f hf => ?_, fun x hx => ?_⟩
  · cases v <;> cases hf <;> exact .inl rfl
  · cases v <;> cases hx

/-- An operation that has been told of the kind fails for a missing resource, or
with the bytes that the kind refuses. -/
theorem Visit.failure_inside {h : Handle} {v : Visit} {kind? : Option Kind}
    (hk : v.consults = .never ∨ ∃ k, kind? = some k) {e : Entry} {f : Failure}
    (hf : v.failure? (v.inside h kind? e).answer = some f) :
    f = .notLoaded h ∨ ∃ cause, f = .reload h cause := by
  cases v with
  | get =>
    simp only [inside, Entry.answering, Entry.get] at hf
    split at hf <;> cases hf
    exact .inl rfl
  | state => cases hf
  | refCount => cases hf
  | release => cases hf
  | offline =>
    obtain ⟨k, rfl⟩ := hk.resolve_left (by simp [consults])
    simp only [inside, Entry.takeOffline] at hf
    split at hf <;> cases hf
    exact .inl rfl
  | online =>
    obtain ⟨k, rfl⟩ := hk.resolve_left (by simp [consults])
    simp only [inside, Entry.bringOnline] at hf
    split at hf <;> cases hf
    exact .inl rfl
  | reload bytes =>
    obtain ⟨k, rfl⟩ := hk.resolve_left (by simp [consults])
    simp only [inside, Entry.reload] at hf
    split at hf
    · simp only [Entry.replace] at hf
      split at hf <;> cases hf
      exact .inr ⟨_, rfl⟩
    · simp only [Entry.replace] at hf
      split at hf <;> cases hf
      exact .inr ⟨_, rfl⟩
    · cases hf
      exact .inl rfl
  | unload =>
    obtain ⟨k, rfl⟩ := hk.resolve_left (by simp [consults])
    simp only [inside, Entry.unload] at hf
    split at hf <;> cases hf
    exact .inl rfl

/-- What is given is what the entry holds. -/
theorem Visit.held_of_given {h : Handle} {v : Visit} {kind? : Option Kind}
    {e : Entry} {x : Representation}
    (hx : v.given? (v.inside h kind? e).answer = some x) : e.held = some x := by
  cases v with
  | get =>
    simp only [inside, Entry.answering, Entry.get] at hx
    split at hx
    · rename_i hheld
      cases hx
      exact hheld
    · cases hx
  | _ => cases hx

/-! ### Sections of a thread -/

/-- Reloads keep `P`. -/
def Conduct.Renews (conduct : Conduct)
    (P : SlotId → Except Failure Representation → Prop) : Prop :=
  ∀ s k old bytes content, conduct s.handle.type k → P s (.ok old) →
    k.reload s.handle old.content bytes = .ok content →
    P s (.ok (Entry.nextObject old content))

variable {conduct : Conduct} {r : Request} {s : SlotId} {e : Entry}

theorem Visit.inside_stores {v : Visit} {kind? : Option Kind}
    (hP : conduct.Renews P) (hk : ∀ k, kind? = some k → conduct s.handle.type k)
    (he : e.Stores (P s)) : (v.inside s.handle kind? e).Stores (P s) := by
  refine ⟨fun call hcall => ?_, ?_⟩
  · obtain ⟨-, he' | ⟨he', hfull⟩ | he'⟩ :=
      Visit.mem_calls_inside hcall <;> rw [he']
    · exact he
    · exact he.offline hfull
    · exact he.unloading
  · cases v with
    | get => exact he
    | state => exact he
    | refCount => exact he
    | release => exact ⟨he.held, he.failure, he.full⟩
    | offline => exact he.takeOffline kind?
    | online => exact he.bringOnline kind?
    | reload bytes =>
      exact he.reload fun kind old content hkind hold hr =>
        hP s kind old bytes content (hk kind hkind) hold hr
    | unload => exact he.unload kind?

/-- What a thread does under the lock of a slot, and what it is about to
answer. -/
theorem Errand.stores {errand : Errand r} {sec : Section r.Reply}
    (hP : conduct.Renews P) (hr : r.handle? = some s.handle)
    (hbriefed : errand.Briefed conduct c) (hbears : errand.Bears P s)
    (he : e.Stores (P s)) (hs : errand.section? s e = some sec) :
    sec.Stores (P s) ∧ r.Granted P sec.answer := by
  cases errand with
  | settle outcome =>
    cases hs
    cases hr
    refine ⟨he.settle hbears, fun f hf => ⟨s, rfl, ?_⟩⟩
    cases outcome with
    | ok x => cases hf
    | error f' =>
      cases hf
      exact hbears
  | join =>
    cases hr
    refine ⟨he.join hs, fun f hf => ⟨s, rfl, he.failure f ?_⟩⟩
    simp only [section?, Entry.join?] at hs
    split at hs
    · cases hs
      cases hf
    · cases hs
      cases hf
    · obtain ⟨f', hf', rfl⟩ := Option.map_eq_some_iff.1 hs
      cases hf
      exact hf'
  | introduce =>
    cases hs
    exact ⟨he.settle hbears, trivial⟩
  | @visit h v kind? =>
    cases hs
    cases hr
    have hk : ∀ k, kind? = some k → conduct s.handle.type k := by
      intro k hkind
      rcases hbriefed with ⟨hnone, -⟩ | ⟨k', hk', -, hacts⟩
      · cases hnone.symm.trans hkind
      · cases hkind.symm.trans hk'
        exact hacts
    have htold : v.consults = .never ∨ ∃ k, kind? = some k :=
      hbriefed.imp And.right (Exists.imp fun _ hk => hk.1)
    exact ⟨Visit.inside_stores hP hk he, fun f => Visit.failure_inside htold,
      fun x hx => ⟨s, rfl, he.held x (Visit.held_of_given hx)⟩⟩
  | look =>
    cases hs
    exact ⟨he.answering _, trivial⟩

/-! ### Moves -/

/-- The section that a thread carries out stores what may be stored, and the
answer that it is about to give may be given. -/
def Point.Stores (P : SlotId → Except Failure Representation → Prop)
    {r : Request} : Point r → Prop
  | .inside hold _ | .calling hold _ _ | .evict hold | .evicting hold =>
    hold.sec.Stores (P hold.slot) ∧ r.Granted P hold.sec.answer
  | .rouse _ a => r.Granted P a
  | _ => True

variable {free : Free} {c : Cache} {p q : Point r} {mv : Move r}

theorem Moves.stores (h : Moves free c p mv) (hP : conduct.Renews P)
    (hc : c.Orderly conduct) (he : ∀ s, (c.entry s).Stores (P s))
    (hp : p.Sound conduct c) (hb : p.Bears P) (hst : p.Stores P)
    (hq : mv.point? = some q) : q.Stores P := by
  cases h with
  | toldAndWork hs =>
    cases hq
    obtain ⟨ha, hm, -, -⟩ := hp
    exact Errand.stores hP ha (briefed_informed hc hm ha) (hb.informed _)
      (he _) hs
  | work hf hw hin hs =>
    cases hq
    obtain ⟨ha, -, -, hbriefed⟩ := hp
    exact Errand.stores hP ha (hbriefed hin) hb (he _) hs
  | leave hev =>
    rw [point?_leave _ _ _ hq]
    exact hst.2
  | evict =>
    rw [point?_leave _ _ _ hq]
    exact hst.2
  | call => cases hq; exact hst
  | back => cases hq; exact hst
  | wait hev => cases hq; exact hst
  | take hf => cases hq; exact hst
  | _ => cases hq <;> trivial

theorem Moves.granted (h : Moves free c p mv) (hst : p.Stores P) {a : r.Reply}
    (ha : mv.answer? = some a) : r.Granted P a := by
  cases h with
  | answer ho hr => exact Request.granted_of_handle? hr a
  | absent ho hs =>
    cases ha
    exact Visit.granted_absent _ _
  | refuse ho hs => exact True.intro
  | leave hev =>
    rw [answer?_leave _ _ _ ha]
    exact hst.2
  | evict =>
    rw [answer?_leave _ _ _ ha]
    exact hst.2
  | rouse =>
    cases ha
    exact hst
  | _ => cases ha

/-- Every entry stores what may be stored after a move, if it did before. -/
theorem Moves.entry_stores (h : Moves free c p mv)
    (he : ∀ s, (c.entry s).Stores (P s)) (hp : p.Sound conduct c)
    (hst : p.Stores P) (s : SlotId) :
    ((mv.cacheAfter c).entry s).Stores (P s) := by
  have hset : ∀ {c' : Cache} {s' : SlotId} {e' : Entry},
      (∀ s, (c'.entry s).Stores (P s)) →
      e'.Stores (P s') → ((c'.setEntry s' e').entry s).Stores (P s) := by
    intro c' s' e' hc' he'
    by_cases hs : s = s'
    · subst hs
      by_cases hm : c'.Made s
      · rw [Cache.entry_setEntry_self hm]
        exact he'
      · rw [Cache.entry_of_not_made (fun hm' => hm (Cache.made_setEntry.1 hm'))]
        exact .unmade
    · rw [Cache.entry_setEntry_of_ne hs]
      exact hc' s
  have heffect := h.effect
  generalize p.deed? c = d at heffect
  cases heffect with
  | still hs =>
    rw [(Cache.Keeps.of_shelves hs s).entry]
    exact he s
  | @opens h' q _ hr hs hq hl hd =>
    show ((c.openSlot h').entry s).Stores (P s)
    by_cases hm : c.Made s
    · rw [c.entry_openSlot_of_made hm]
      exact he s
    · by_cases hn : s = c.nextSlot h'
      · rw [hn, c.entry_openSlot_nextSlot]
        exact .fresh
      · rw [Cache.entry_of_not_made fun hm' =>
          ((c.made_openSlot).1 hm').elim hm hn]
        exact .unmade
  | @calls hold call rest =>
    obtain ⟨found, hs⟩ := hp
    exact hset he (hst.1.calls call hs.tail.1)
  | leaves hev =>
    rw [cacheAfter_leave]
    exact hset he hst.1.entry
  | evicts =>
    rw [cacheAfter_leave]
    exact hset (fun s => by rw [Cache.entry_evict]; exact he s) hst.1.entry

end

/-! ### Along a course -/

namespace Thread

variable {α : Type} {P : SlotId → Except Failure Representation → Prop}
  {t : Thread α}

def Stores (P : SlotId → Except Failure Representation → Prop) : Thread α → Prop
  | .finished _ => True
  | .busy _ p _ => p.Stores P

theorem Stores.roused (h : t.Stores P) (w : Option SlotId) :
    (t.roused w).Stores P := by
  cases t with
  | finished a => cases w <;> trivial
  | busy r p next =>
    rcases roused_busy w p next with heq | ⟨s, errand, rfl, heq⟩ <;> rw [heq]
    · exact h
    · trivial

theorem stores_ofProgram (p : Program α) : (ofProgram p).Stores P := by
  cases p <;> trivial

end Thread

namespace Machine

variable {α : Type} {conduct : Conduct} {m₀ m : Machine α} {es : List Event}
  {P : SlotId → Except Failure Representation → Prop}

/-- What is true of whatever loads come to, and of what was brought, and is kept
by reloads, is true of whatever entries store and callers are given. -/
theorem Course.stores (h : Course conduct m₀ es m) (h₀ : m₀.Starts conduct)
    (hP : conduct.Yields P) (hR : conduct.Renews P)
    (hx : ∀ x, Event.befell (.brought x) ∈ es → P x.object.slot (.ok x)) :
    (∀ s, (m.cache.entry s).Stores (P s)) ∧ (∀ t ∈ m.threads, t.Stores P) ∧
      ∀ i r a, Event.answered i r a ∈ es → r.Granted P a := by
  induction h with
  | refl =>
    refine ⟨fun s => ?_, fun t ht => ?_, nofun⟩
    · rw [Cache.entry_of_not_made (h₀.not_made s)]
      exact .unmade
    · obtain ⟨p, rfl, -⟩ := h₀.threads t ht
      exact Thread.stores_ofProgram p
  | step h hs ih =>
    have hx' := fun x hmem => hx x (List.mem_append_right _ hmem)
    obtain ⟨hentries, hthreads, hanswers⟩ := ih hx'
    obtain ⟨r, p, next, mv, hi, hmv, hev, rfl⟩ := step_cases hs
    have hinv := h.inv h₀
    have hsound := (hinv.sound _ _ hi).1
    have hmem := List.mem_of_getElem? hi
    have hst : p.Stores P := hthreads _ hmem
    have hbears : p.Bears P := h.bears h₀ hP hx' _ hmem
    refine ⟨fun s => hmv.entry_stores hentries hsound hst s, ?_,
      fun i' r' a' hans => ?_⟩
    · refine forall_mem_set_wake hthreads (fun t w ht => ht.roused w) ?_ _
      exact of_moved hmv.ne_blocked
        (fun q hq => hmv.stores hR hinv.orderly hentries hsound hbears hst hq)
        Thread.stores_ofProgram
    · rcases List.mem_append.1 hans with hans | hans
      · rw [hev] at hans
        obtain ⟨a, ha, heq⟩ := Move.answered_mem_events.1 hans
        cases heq
        exact hmv.granted hst ha
      · exact hanswers i' r' a' hans
  | drift h hc ih =>
    obtain ⟨hentries, hthreads, hanswers⟩ := ih hx
    refine ⟨fun s => ?_, hthreads, hanswers⟩
    show (Cache.entry _ s).Stores (P s)
    rw [(Cache.Keeps.of_shelves hc.shelves s).entry]
    exact hentries s
  | stir h i ih =>
    obtain ⟨hentries, hthreads, hanswers⟩ := ih hx
    exact ⟨hentries, forall_mem_stir hthreads (fun t w ht => ht.roused w) i,
      hanswers⟩

end Machine

end ResourceHost
