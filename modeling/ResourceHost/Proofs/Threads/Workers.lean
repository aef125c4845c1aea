import ResourceHost.Proofs.Threads.Exclusion
import ResourceHost.Proofs.Threads.Standings

/-!
# Workers

Somebody at work on a handle has callbacks still to make, and these lead to the
standing of the entry that it will leave.  Each step of a worker goes along this
path, and only workers make callbacks.
-/

namespace ResourceHost

/-! ### What a worker has still to do -/

/-- What a thread that is at work on a handle tells of the handle's standing. -/
def Point.Tells {r : Request} (st : Standing) : Point r → Prop
  | .fetch _ => st = .absent
  | .loading (k := k) s bytes =>
    st = match k.load s.handle bytes with
      | .ok content => .coming (Entry.firstObject s content)
      | .error _ => .absent
  | .enter s errand => st = errand.standing s Entry.fresh
  | .inside hold calls =>
    Standing.Path hold.slot.handle st (calls.map Call.happening)
      hold.sec.entry.standing
  | .calling hold _ rest =>
    Standing.Path hold.slot.handle st (rest.map Call.happening)
      hold.sec.entry.standing
  | .evict hold | .evicting hold => st = hold.sec.entry.standing
  | _ => False

theorem Call.Fits.not_blank {h : Handle} {e : Entry} {call : Call}
    (hf : call.Fits h e) : ¬ call.entry.Blank := by
  rintro (hb | hb)
  · exact hf.not_loading (congrArg Entry.state hb)
  · exact hf.not_unloaded hb.state

theorem Point.AtWork.of_hold {c : Cache} {r : Request} {p : Point r}
    {s : SlotId} {hold : Hold r} (hw : p.AtWork c s)
    (ho : p.owner? = if hold.errand.owns then some hold.slot else none)
    (hh : p.hold? = some hold.slot) :
    hold.slot = s ∧ (hold.errand.owns = true ∨ ¬ (c.entry s).Blank) := by
  rcases hw.how with hs | ⟨hs, hb⟩
  · rw [ho] at hs
    obtain ⟨howns, heq⟩ := Point.owner?_eq_some hs
    exact ⟨heq, .inl howns⟩
  · rw [hh] at hs
    exact ⟨Option.some.inj hs, .inr hb⟩

namespace Moves

variable {conduct : Conduct} {r : Request} {free : Free} {c : Cache}
  {p : Point r} {mv : Move r} {s : SlotId} {st : Standing}

theorem callback?_leave (hold : Hold r) (c : Cache) :
    (Move.leave hold c).callback? = none := by
  unfold Move.callback?
  cases hq : (Move.leave hold c).point? with
  | none => rfl
  | some q =>
    rw [point?_leave _ _ _ hq]
    rfl

theorem happening?_leave {hold : Hold r} (hp : p.brings? c = none)
    (c' : Cache) : (Move.leave hold c').happening? p c = none := by
  rw [Move.happening?, hp, callback?_leave]
  rfl

/-- The log has one callback more for each that begins. -/
theorem log_cacheAfter (h : Moves free c p mv) :
    (mv.cacheAfter c).log = mv.callback?.toList ++ c.log := by
  cases h with
  | answer ho hr =>
    cases r with
    | register t k =>
      show (c.register t k).2.log = c.log
      unfold Cache.register
      split <;> rfl
    | acquire h k => cases hr
    | add h k content => cases hr
    | visit h v => cases hr
    | stateOf s => cases hr
    | _ => rfl
  | leave hev =>
    rw [callback?_leave, cacheAfter_leave]
    rfl
  | @evict _ hold =>
    rw [callback?_leave, cacheAfter_leave, Cache.log_setEntry, Cache.log_evict]
    rfl
  | _ => rfl

/-- What a worker's step makes of the handle's standing: what befalls the handle
leads on, and the worker tells of what follows, or has done its work. -/
structure Works (c : Cache) (s : SlotId) (st : Standing) (p : Point r)
    (mv : Move r) (st' : Standing) : Prop where
  path : Standing.Path s.handle st (mv.happening? p c).toList st'
  goesOn : (∃ q, mv.point? = some q ∧ q.AtWork (mv.cacheAfter c) s ∧
      q.Tells st') ∨
    ((mv.cacheAfter c).find? s.handle = none ∧ st' = .absent) ∨
    ((mv.cacheAfter c).Listed s ∧ ((mv.cacheAfter c).entry s).Loaded ∧
      st' = ((mv.cacheAfter c).entry s).standing ∧ p.slot? = some s ∧
      ∀ q, mv.point? = some q → ¬ q.AtWork (mv.cacheAfter c) s)

theorem not_atWork_of_idle (ho : p.owner? = none) (hh : p.hold? = none) :
    ¬ p.AtWork c s := by
  intro hw
  rcases hw.how with hs | ⟨hs, -⟩
  · rw [ho] at hs
    cases hs
  · rw [hh] at hs
    cases hs

theorem not_atWork_of_opening (ho : p.Opening) : ¬ p.AtWork c s :=
  not_atWork_of_idle (owner?_of_opening ho) (hold?_of_opening ho)

section

variable {hold : Hold r} {found : Entry}

/-- To begin a callback leads one step on. -/
theorem works_call {call : Call} {rest : List Call}
    (hs : hold.Since conduct c found (call :: rest))
    (hw : hold.errand.owns = true ∨ ¬ (c.entry hold.slot).Blank)
    (ht : (Point.inside hold (call :: rest)).Tells st) :
    ∃ st', Works c hold.slot st (.inside hold (call :: rest))
      (.go (.calling hold call rest)
        ((c.record [call.callback]).setEntry hold.slot call.entry))
      st' := by
  obtain ⟨hl, htidy⟩ := hs.tidy_of_atWork hw
  have hfits := htidy.calls call hs.tail.1
  cases ht with
  | @cons _ st' _ _ _ hstep hrest =>
    refine ⟨st', .single hstep,
      .inl ⟨_, rfl, ⟨Cache.listed_setEntry.2 hl, ?_⟩, hrest⟩⟩
    refine .inr ⟨rfl, ?_⟩
    show ¬ (((c.record [call.callback]).setEntry hold.slot call.entry).entry
      hold.slot).Blank
    rw [Cache.entry_setEntry_record_self hs.made]
    exact hfits.not_blank

/-- Who lets a slot go that stays has done its work. -/
theorem works_leave (hs : hold.Since conduct c found [])
    (hw : hold.errand.owns = true ∨ ¬ (c.entry hold.slot).Blank)
    (hev : hold.sec.evicts = false) :
    ∃ st', Works c hold.slot hold.sec.entry.standing (.inside hold [])
      (Move.leave hold c) st' := by
  obtain ⟨hl, htidy⟩ := hs.tidy_of_atWork hw
  have hafter : ((Move.leave hold c).cacheAfter c).entry hold.slot =
      hold.sec.entry := by
    rw [cacheAfter_leave, Cache.entry_setEntry_self hs.made]
  refine ⟨hold.sec.entry.standing, ?_, .inr (.inr ⟨?_, ?_, ?_, rfl, ?_⟩)⟩
  · rw [happening?_leave rfl]
    exact .refl
  · rw [cacheAfter_leave, Cache.listed_setEntry]
    exact hl
  · rw [hafter]
    exact htidy.loaded hev
  · rw [hafter]
  · intro q hq
    rw [point?_leave _ _ _ hq]
    exact not_atWork_of_idle rfl rfl

/-- Who evicts a slot leaves nothing behind. -/
theorem works_evict (hs : hold.Since conduct c found [])
    (hw : hold.errand.owns = true ∨ ¬ (c.entry hold.slot).Blank)
    (hev : hold.sec.evicts = true) :
    ∃ st', Works c hold.slot hold.sec.entry.standing (.evicting hold)
      (Move.leave hold (c.evict hold.slot)) st' := by
  obtain ⟨hl, htidy⟩ := hs.tidy_of_atWork hw
  refine ⟨.absent, ?_, .inr (.inl ⟨?_, rfl⟩)⟩
  · rw [happening?_leave rfl, (htidy.gone hev).standing]
    exact .refl
  · rw [cacheAfter_leave, Cache.find?_setEntry, Cache.find?_evict]
    exact if_pos hl

end

/-- A worker takes its handle from one standing to the next. -/
theorem works (hmv : Moves free c p mv) (hp : p.Sound conduct c)
    (hw : p.AtWork c s) (ht : p.Tells st) : ∃ st', Works c s st p mv st' := by
  cases hmv with
  | unread hr =>
    have hs : some _ = some s := hw.how.resolve_right nofun
    obtain rfl := Option.some.inj hs
    exact ⟨st, .refl, .inl ⟨_, rfl, ⟨hw.listed, .inl rfl⟩, ht⟩⟩
  | @read h k s' bytes hr =>
    -- What the load will come to is settled as it begins.
    have hs : some s' = some s := hw.how.resolve_right nofun
    obtain rfl := Option.some.inj hs
    cases ht
    refine ⟨_, ?_, .inl ⟨_, rfl, ⟨hw.listed, .inl rfl⟩, rfl⟩⟩
    show Standing.Path s'.handle .absent [.called _] _
    cases k.load s'.handle bytes with
    | ok content => exact .single .load
    | error f => exact .single .fail
  | @loaded h k s' bytes content hk =>
    have hs : some s' = some s := hw.how.resolve_right nofun
    obtain rfl := Option.some.inj hs
    refine ⟨st, .refl, .inl ⟨_, rfl, ⟨hw.listed, .inl rfl⟩, ?_⟩⟩
    rw [Point.Tells, hk] at ht
    exact ht
  | @rejected h k s' bytes f hk =>
    have hs : some s' = some s := hw.how.resolve_right nofun
    obtain rfl := Option.some.inj hs
    refine ⟨st, .refl, .inl ⟨_, rfl, ⟨hw.listed, .inl rfl⟩, ?_⟩⟩
    rw [Point.Tells, hk] at ht
    exact ht
  | @park _ s' errand hf hwait =>
    -- Whoever owns the slot neither waits nor asks nor starts over.
    obtain ⟨ho, -⟩ := Point.owner?_eq_some (hw.how.resolve_right nofun)
    cases errand with
    | settle outcome => cases hwait
    | introduce => cases hwait
    | _ => cases ho
  | @hold _ s' errand hf hin =>
    obtain ⟨ho, -⟩ := Point.owner?_eq_some (hw.how.resolve_right nofun)
    cases errand with
    | settle outcome => cases hin
    | introduce => cases hin
    | _ => cases ho
  | @restart _ s' errand hf hwait hin hsec =>
    obtain ⟨ho, -⟩ := Point.owner?_eq_some (hw.how.resolve_right nofun)
    cases errand with
    | settle outcome => cases hsec
    | introduce => cases hsec
    | _ => cases ho
  | @work _ s' errand sec hf hwait hin hsec =>
    obtain ⟨ho, rfl⟩ := Point.owner?_eq_some (hw.how.resolve_right nofun)
    obtain ⟨ha, hm, haw, -⟩ := hp
    rw [(haw ho).fresh] at hsec
    refine ⟨st, .refl, .inl ⟨_, rfl, ⟨hw.listed, .inl ?_⟩, ?_⟩⟩
    · rw [Point.owner?, ho]
      rfl
    · cases ht
      exact Errand.path_of_owns ho ha hsec
  | call =>
    obtain ⟨rfl, hwork⟩ := hw.of_hold rfl rfl
    obtain ⟨found, hsince⟩ := hp
    exact works_call hsince hwork ht
  | back =>
    obtain ⟨rfl, hwork⟩ := hw.of_hold rfl rfl
    exact ⟨st, .refl, .inl ⟨_, rfl, ⟨hw.listed, hw.how⟩, ht⟩⟩
  | wait hev =>
    obtain ⟨rfl, hwork⟩ := hw.of_hold rfl rfl
    cases ht
    exact ⟨_, .refl, .inl ⟨_, rfl, ⟨hw.listed, hw.how⟩, rfl⟩⟩
  | take hf =>
    obtain ⟨rfl, hwork⟩ := hw.of_hold rfl rfl
    exact ⟨st, .refl, .inl ⟨_, rfl, ⟨hw.listed, hw.how⟩, ht⟩⟩
  | leave hev =>
    obtain ⟨rfl, hwork⟩ := hw.of_hold rfl rfl
    obtain ⟨found, hsince⟩ := hp
    cases ht
    exact works_leave hsince hwork hev
  | evict =>
    obtain ⟨rfl, hwork⟩ := hw.of_hold rfl rfl
    obtain ⟨hev, found, hsince⟩ := hp
    cases ht
    exact works_evict hsince hwork hev
  | turn hl hf => exact absurd hw (not_atWork_of_idle rfl rfl)
  | answer ho hr => exact absurd hw (not_atWork_of_opening ho)
  | look ho => exact absurd hw (not_atWork_of_opening ho)
  | join ho hf => exact absurd hw (not_atWork_of_opening ho)
  | load ho hf => exact absurd hw (not_atWork_of_opening ho)
  | refuse ho hf => exact absurd hw (not_atWork_of_opening ho)
  | insert ho hf => exact absurd hw (not_atWork_of_opening ho)
  | absent ho hf => exact absurd hw (not_atWork_of_opening ho)
  | find ho hf hv => exact absurd hw (not_atWork_of_opening ho)
  | findAndAsk ho hf hv => exact absurd hw (not_atWork_of_opening ho)
  | rouse => exact absurd hw (not_atWork_of_idle rfl rfl)
  | _ => cases ht

/-! ### Who is not at work yet -/

/-- Only a worker makes a callback. -/
theorem atWork_of_callback? (hmv : Moves free c p mv) (hp : p.Sound conduct c)
    {cb : Callback} (hcb : mv.callback? = some cb) :
    ∃ s, cb.handle = s.handle ∧ p.AtWork c s := by
  cases hmv with
  | @read h k s bytes hr =>
    cases hcb
    obtain ⟨-, -, hw⟩ := hp
    exact ⟨s, rfl, hw.listed, .inl rfl⟩
  | @call _ hold call rest =>
    cases hcb
    obtain ⟨found, hsince⟩ := hp
    obtain ⟨hmem, -⟩ := hsince.tail
    exact Point.atWork_of_since hsince hmem rfl rfl
  | leave hev =>
    rw [callback?_leave] at hcb
    cases hcb
  | evict =>
    rw [callback?_leave] at hcb
    cases hcb
  | _ => cases hcb

theorem brings?_of_opening (ho : p.Opening) (hr : r.brings? c = none) :
    p.brings? c = none := by
  rcases ho with ⟨rfl, -⟩ | rfl
  · rfl
  · exact hr

/-- Who begins on a handle without a slot leaves it without one, or has made one
and is at work on it. -/
theorem begins (hmv : Moves free c p mv) {h : Handle} (hf : c.find? h = none) :
    (mv.cacheAfter c).find? h = none ∧
      (∀ x, p.brings? c = some x → x.object.slot.handle ≠ h) ∨
      ∃ q st', mv.point? = some q ∧ q.AtWork (mv.cacheAfter c) (c.nextSlot h) ∧
        q.Tells st' ∧
        Standing.Path h .absent (mv.happening? p c).toList st' := by
  have hstays : (mv.cacheAfter c).find? h = none → p.brings? c = none →
      (mv.cacheAfter c).find? h = none ∧
        ∀ x, p.brings? c = some x → x.object.slot.handle ≠ h := by
    intro hafter hb
    refine ⟨hafter, fun x hx => ?_⟩
    rw [hb] at hx
    cases hx
  have hopens : ∀ {h' : Handle}, h' ≠ h → (c.openSlot h').find? h = none := by
    intro h' hh
    rw [c.find?_openSlot_of_ne (Ne.symm hh)]
    exact hf
  -- Only `load` and `insert` make a slot, and they may make it for another
  -- handle.
  cases hmv with
  | @load h' k _ ho hs =>
    obtain rfl := begun_of_opening ho (l := .table) rfl
    by_cases hh : h' = h
    · subst hh
      refine .inr ⟨_, .absent, rfl, ⟨c.listed_openSlot_nextSlot h', .inl rfl⟩,
        rfl, ?_⟩
      exact .refl
    · exact .inl (hstays (hopens hh) rfl)
  | @insert h' k content _ ho hs =>
    obtain rfl := begun_of_opening ho (l := .table) rfl
    have hb : (Point.begun : Point (.add h' k content)).brings? c =
        some (Entry.firstObject (c.nextSlot h') content) := by
      show Request.brings? c (.add h' k content) = _
      simp [Request.brings?, Cache.isListed_eq_isSome, hs]
    by_cases hh : h' = h
    · subst hh
      refine .inr ⟨_, _, rfl, ⟨c.listed_openSlot_nextSlot h', .inl rfl⟩, rfl,
        ?_⟩
      rw [Move.happening?, hb]
      exact .single (.bring rfl)
    · refine .inl ⟨hopens hh, fun x hx => ?_⟩
      rw [hb] at hx
      cases hx
      exact hh
  | answer ho hr =>
    refine .inl (hstays ?_ (brings?_of_opening ho ?_))
    · show (r.run c).2.find? h = none
      rw [Cache.find?,
        Cache.shelf_eq_of_shelves (shelves_run_of_handle?_eq_none hr c)]
      exact hf
    · cases r <;> first | rfl | cases hr
  | refuse ho hs =>
    refine .inl (hstays hf (brings?_of_opening ho ?_))
    simp [Request.brings?, Cache.isListed_eq_isSome, hs]
  | look ho => exact .inl (hstays hf (brings?_of_opening ho rfl))
  | join ho hs => exact .inl (hstays hf (brings?_of_opening ho rfl))
  | absent ho hs => exact .inl (hstays hf (brings?_of_opening ho rfl))
  | find ho hs hv => exact .inl (hstays hf (brings?_of_opening ho rfl))
  | findAndAsk ho hs hv => exact .inl (hstays hf (brings?_of_opening ho rfl))
  | @call _ hold call rest =>
    refine .inl (hstays ?_ rfl)
    show ((c.record [call.callback]).setEntry hold.slot call.entry).find? h =
      none
    rw [Cache.find?_setEntry]
    exact hf
  | leave hev =>
    refine .inl (hstays ?_ rfl)
    rw [cacheAfter_leave, Cache.find?_setEntry]
    exact hf
  | @evict _ hold =>
    refine .inl (hstays ?_ rfl)
    rw [cacheAfter_leave, Cache.find?_setEntry, Cache.find?_evict, hf]
    rfl
  | _ => exact .inl (hstays hf rfl)

/-- A section that is begun on a loaded entry leads on from where the entry
stands. -/
theorem tells_of_hold? (hmv : Moves free c p mv) (hp : p.Sound conduct c)
    {q : Point r} (hq : mv.point? = some q) (hs : q.hold? = some s)
    (hno : p.hold? ≠ some s) (hd : (c.entry s).Loaded) :
    q.Tells (c.entry s).standing := by
  rcases hmv.hold?_of_point? hp hq hs with
    hs' | ⟨errand, sec, rfl, hsec, ha, haw⟩
  · exact absurd hs' hno
  · have ho : errand.owns = false := by
      cases howns : errand.owns with
      | false => rfl
      | true => exact absurd (.inl (haw howns).fresh) hd.not_blank
    have hpath := Errand.path_of_loaded ho hd ha hsec
    rw [Errand.standing_of_not_owns ho] at hpath
    exact hpath

end Moves

/-- Something is brought only for a handle without a slot. -/
theorem Point.find?_of_brings? {c : Cache} {r : Request} {p : Point r}
    {x : Representation} (hx : p.brings? c = some x) :
    c.find? x.object.slot.handle = none := by
  cases p with
  | begun =>
    cases r with
    | add h k content =>
      have hb : (if c.isListed h then
            none else some (Entry.firstObject (c.nextSlot h) content)) =
          some x := hx
      rw [Cache.isListed_eq_isSome] at hb
      cases hf : c.find? h with
      | some s =>
        rw [hf] at hb
        cases hb
      | none =>
        rw [hf] at hb
        cases hb
        exact hf
    | _ => cases hx
  | _ => cases hx

/-- A point on a slot is within a request about its handle. -/
theorem Point.Sound.handle? {conduct : Conduct} {c : Cache} {r : Request}
    {p : Point r} {s : SlotId} (hp : p.Sound conduct c)
    (hs : p.owner? = some s ∨ p.hold? = some s) :
    r.handle? = some s.handle := by
  have hhold : p.hold? = some s → r.handle? = some s.handle := by
    intro hh
    obtain ⟨hold, found, calls, rfl, -, hsince⟩ := hp.since hh
    exact hsince.about
  rcases hs with ho | hh
  · cases p with
    | fetch s' =>
      cases ho
      exact hp.1
    | loading s' bytes =>
      cases ho
      exact hp.1
    | consult s' errand locked =>
      obtain ⟨-, rfl⟩ := owner?_eq_some ho
      exact hp.1
    | consulting s' errand locked =>
      obtain ⟨-, rfl⟩ := owner?_eq_some ho
      exact hp.1
    | enter s' errand =>
      obtain ⟨-, rfl⟩ := owner?_eq_some ho
      exact hp.1
    | parked s' errand =>
      obtain ⟨-, rfl⟩ := owner?_eq_some ho
      exact hp.1
    | inside hold calls => exact hhold (congrArg some (owner?_eq_some ho).2)
    | calling hold call rest =>
      exact hhold (congrArg some (owner?_eq_some ho).2)
    | evict hold => exact hhold (congrArg some (owner?_eq_some ho).2)
    | evicting hold => exact hhold (congrArg some (owner?_eq_some ho).2)
    | _ => cases ho
  · exact hhold hh

end ResourceHost
