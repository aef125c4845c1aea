import ResourceHost.Proofs.Threads.Workers

/-!
# The discipline of callbacks

However operations interleave, what befalls a handle leads from one standing of
the handle to the next: no callback is missing and none is made twice.  While
somebody is at work on the handle the worker tells where it stands; at any other
time the entry does that the table lists.
-/

namespace ResourceHost

/-! ### What befell a handle -/

/-- What befell a handle, in its order. -/
def Event.history (h : Handle) (es : List Event) : List Happening :=
  (es.filterMap fun
    | .befell x => if x.handle = h then some x else none
    | _ => none).reverse

/-- The callbacks that were made, the latest first. -/
def Event.callbacks (es : List Event) : List Callback :=
  es.filterMap fun
    | .befell (.called cb) => some cb
    | _ => none

namespace Event

variable {h : Handle} {r : Request} {i : Nat} {p : Point r} {c : Cache}
  {mv : Move r}

theorem history_append (h : Handle) (es es' : List Event) :
    history h (es ++ es') = history h es' ++ history h es := by
  rw [history, history, history, List.filterMap_append, List.reverse_append]

theorem callbacks_append (es es' : List Event) :
    callbacks (es ++ es') = callbacks es ++ callbacks es' :=
  List.filterMap_append

theorem history_events (h : Handle) (i : Nat) (p : Point r) (c : Cache)
    (mv : Move r) :
    history h (mv.events i p c) =
      ((mv.happening? p c).filter fun x => x.handle = h).toList := by
  have hans : history h (mv.answer?.map (Event.answered i r)).toList = [] := by
    cases mv.answer? <;> rfl
  have hdid : history h ((p.deed? c).map fun d => Event.did i d.1 d.2).toList =
      [] := by
    cases p.deed? c <;> rfl
  rw [Move.events, Move.marks, history_append, history_append, hans, hdid,
    List.append_nil, List.append_nil]
  cases mv.happening? p c with
  | none => rfl
  | some x =>
    by_cases hx : x.handle = h <;> simp [history, Option.filter, hx]

theorem history_eq_of_path {st st' : Standing}
    (hp : Standing.Path h st (mv.happening? p c).toList st') :
    history h (mv.events i p c) = (mv.happening? p c).toList := by
  rw [history_events]
  cases hx : mv.happening? p c with
  | none => rfl
  | some x =>
    rw [hx] at hp
    simp [Option.filter, hp.handle_eq x (List.mem_singleton.2 rfl)]

theorem history_eq_nil (hx : ∀ x, mv.happening? p c = some x → x.handle ≠ h) :
    history h (mv.events i p c) = [] := by
  rw [history_events]
  cases hx' : mv.happening? p c with
  | none => rfl
  | some x => simp [Option.filter, hx x hx']

theorem callbacks_events (i : Nat) (p : Point r) (c : Cache) (mv : Move r)
    (hb : p.brings? c ≠ none → mv.callback? = none) :
    callbacks (mv.events i p c) = mv.callback?.toList := by
  have hans : callbacks (mv.answer?.map (Event.answered i r)).toList = [] := by
    cases mv.answer? <;> rfl
  have hdid : callbacks ((p.deed? c).map fun d => Event.did i d.1 d.2).toList =
      [] := by
    cases p.deed? c <;> rfl
  rw [Move.events, Move.marks, callbacks_append, callbacks_append, hans, hdid,
    List.nil_append, List.nil_append, Move.happening?]
  cases hbr : p.brings? c with
  | some x =>
    rw [hb (by simp [hbr])]
    rfl
  | none =>
    cases mv.callback? <;> rfl

end Event

/-! ### Threads at work -/

/-- At work on a slot that is listed. -/
structure Thread.AtWork {α : Type} (c : Cache) (s : SlotId) (t : Thread α) :
    Prop where
  listed : c.Listed s
  how : t.owner? = some s ∨ t.hold? = some s ∧ ¬ (c.entry s).Blank

namespace Thread

variable {α : Type} {c c' : Cache} {s : SlotId} {t : Thread α}

theorem AtWork.of_keeps (h : t.AtWork c s) (hk : c.Keeps c' s) :
    t.AtWork c' s := by
  refine ⟨hk.listed.2 h.listed, ?_⟩
  rw [hk.entry]
  exact h.how

theorem atWork_roused {w : Option SlotId} :
    (t.roused w).AtWork c s ↔ t.AtWork c s := by
  constructor
  · rintro ⟨hl, how⟩
    rw [owner?_roused, hold?_roused] at how
    exact ⟨hl, how⟩
  · rintro ⟨hl, how⟩
    refine ⟨hl, ?_⟩
    rw [owner?_roused, hold?_roused]
    exact how

theorem not_atWork_ofProgram (p : Program α) : ¬ (ofProgram p).AtWork c s := by
  rintro ⟨-, how⟩
  rw [owner?_ofProgram, hold?_ofProgram] at how
  rcases how with h | ⟨h, -⟩ <;> cases h

theorem AtWork.busy (h : t.AtWork c s) :
    ∃ (r : Request) (p : Point r) (next : r.Reply → Program α),
      t = .busy r p next ∧ p.AtWork c s := by
  cases t with
  | finished a => rcases h.how with h | ⟨h, -⟩ <;> cases h
  | busy r p next => exact ⟨r, p, next, rfl, h.listed, h.how⟩

theorem AtWork.of_move {r : Request} {p : Point r} {next : r.Reply → Program α}
    {mv : Move r} (hmv : mv ≠ .blocked) (h : (mv.thread p next).AtWork c s) :
    ∃ q, mv.point? = some q ∧ q.AtWork c s := by
  cases mv with
  | blocked => exact absurd rfl hmv
  | go q c' => exact ⟨q, rfl, h.listed, h.how⟩
  | reply a w c' => exact absurd h (not_atWork_ofProgram _)

/-- A worker is not asleep. -/
theorem roused_of_tells {r : Request} {p : Point r} {next : r.Reply → Program α}
    {st : Standing} (ht : p.Tells st) (w : Option SlotId) :
    roused w (.busy r p next) = .busy r p next := by
  rcases roused_busy w p next with heq | ⟨s, errand, rfl, -⟩
  · exact heq
  · cases ht

end Thread

/-! ### Where a handle stands -/

namespace Machine

variable {α : Type} {conduct : Conduct} {m m₀ m' : Machine α} {h : Handle}
  {st : Standing}

/-- Where a handle stands: as a worker tells, or as the entry does that is
listed, if any. -/
inductive Stands (m : Machine α) (h : Handle) : Standing → Prop where
  | absent (hf : m.cache.find? h = none) : Stands m h .absent
  | still {s : SlotId} (hs : s.handle = h) (hl : m.cache.Listed s)
      (hd : (m.cache.entry s).Loaded)
      (hn : ∀ (j : Nat) (t : Thread α), m.threads[j]? = some t →
        ¬ t.AtWork m.cache s) : Stands m h (m.cache.entry s).standing
  | working {i : Nat} {r : Request} {p : Point r} {next : r.Reply → Program α}
      {s : SlotId} {st : Standing} (hi : m.threads[i]? = some (.busy r p next))
      (hs : s.handle = h) (hw : p.AtWork m.cache s) (ht : p.Tells st) :
      Stands m h st

theorem Starts.stands (h₀ : m₀.Starts conduct) (h : Handle) :
    m₀.Stands h .absent :=
  .absent (h₀.find?_eq_none h)

/-- No two threads are at work on one slot. -/
theorem Inv.atWork_thread_sole (hinv : m.Inv conduct) {i j : Nat}
    {t t' : Thread α} {s : SlotId} (hi : m.threads[i]? = some t)
    (hj : m.threads[j]? = some t') (ht : t.AtWork m.cache s)
    (ht' : t'.AtWork m.cache s) : i = j := by
  obtain ⟨r, p, next, rfl, hp⟩ := ht.busy
  obtain ⟨r', p', next', rfl, hp'⟩ := ht'.busy
  exact hinv.atWork_sole hi hj hp hp' rfl

/-- A worker tells where its handle stands. -/
theorem Stands.tells (hst : m.Stands h st) (hinv : m.Inv conduct) {i : Nat}
    {r : Request} {p : Point r} {next : r.Reply → Program α} {s : SlotId}
    (hi : m.threads[i]? = some (.busy r p next)) (hs : s.handle = h)
    (hw : p.AtWork m.cache s) : p.Tells st := by
  cases hst with
  | absent hf =>
    have hl : m.cache.find? s.handle = some s := hw.listed
    rw [hs, hf] at hl
    cases hl
  | @still s' hs' hl hd hn =>
    obtain rfl : s' = s := hl.unique hw.listed (hs'.trans hs.symm)
    exact absurd ⟨hw.listed, hw.how⟩ (hn i _ hi)
  | @working j r' p' next' s' _ hj hs' hw' ht =>
    obtain rfl := hinv.atWork_sole hi hj hw hw' (hs.trans hs'.symm)
    rw [hi] at hj
    cases hj
    exact ht

/-- When the worker moves, what befalls its handle leads on. -/
theorem Inv.stands_of_worker (hinv : m.Inv conduct) (hst : m.Stands h st)
    {i : Nat} {r : Request} {p : Point r} {next : r.Reply → Program α}
    {mv : Move r} {s : SlotId} (hi : m.threads[i]? = some (.busy r p next))
    (hmv : Moves m.free m.cache p mv) (hs : s.handle = h)
    (hw : p.AtWork m.cache s) :
    ∃ st', Standing.Path h st (Event.history h (mv.events i p m.cache)) st' ∧
      Stands ⟨mv.cacheAfter m.cache,
          (wake mv.woken? m.threads).set i (mv.thread p next)⟩
        h st' := by
  subst hs
  have hp : p.Sound conduct m.cache := (hinv.sound i _ hi).1
  obtain ⟨st', hpath, hgoes⟩ := hmv.works hp hw (hst.tells hinv hi rfl hw)
  refine ⟨st', ?_, ?_⟩
  · rw [Event.history_eq_of_path hpath]
    exact hpath
  · rcases hgoes with ⟨q, hq, hqw, hqt⟩ | ⟨hf, rfl⟩ | ⟨hl, hd, rfl, hslot, hq⟩
    · rw [Move.thread_of_point? hq]
      exact .working (getElem?_set_wake_self hi) rfl hqw hqt
    · exact .absent hf
    · refine .still rfl hl hd fun j t hj ht => ?_
      rcases getElem?_set_wake hj with ⟨rfl, rfl⟩ | ⟨hij, t₀, ht₀, rfl⟩
      · obtain ⟨q, hqp, hqw⟩ := ht.of_move hmv.ne_blocked
        exact hq q hqp hqw
      · -- Another one would have been at work there before, beside the worker.
        have hother := Thread.atWork_roused.1 ht
        rcases hother.how with ho | ⟨hh, -⟩
        · exact hij (hinv.atWork_thread_sole ht₀ hi ⟨hw.listed, .inl ho⟩
            ⟨hw.listed, hw.how⟩)
        · exact hij (hinv.locks j i _ _ s ht₀ hi (Thread.slot?_of_hold? hh)
            hslot)

/-- When somebody moves who is not at work on a handle that is listed, nothing
befalls the handle. -/
theorem Inv.history_of_idle (hinv : m.Inv conduct) {i : Nat} {r : Request}
    {p : Point r} {next : r.Reply → Program α} {mv : Move r}
    (hi : m.threads[i]? = some (.busy r p next))
    (hmv : Moves m.free m.cache p mv)
    (hno : ∀ s : SlotId, s.handle = h → ¬ p.AtWork m.cache s)
    (hb : ∀ x, p.brings? m.cache = some x → x.object.slot.handle ≠ h) :
    Event.history h (mv.events i p m.cache) = [] := by
  refine Event.history_eq_nil fun x hx hh => ?_
  unfold Move.happening? at hx
  split at hx
  · rename_i y hy
    cases hx
    exact hb y hy hh
  · obtain ⟨cb, hcb, rfl⟩ := Option.map_eq_some_iff.1 hx
    obtain ⟨s, hs, hw⟩ := hmv.atWork_of_callback? (hinv.sound i _ hi).1 hcb
    exact hno s (hs.symm.trans hh) hw

/-- A handle without a slot stays without one, or whoever moves begins to work
on it. -/
theorem Inv.stands_of_absent (hinv : m.Inv conduct)
    (hf : m.cache.find? h = none) {i : Nat} {r : Request} {p : Point r}
    {next : r.Reply → Program α} {mv : Move r}
    (hi : m.threads[i]? = some (.busy r p next))
    (hmv : Moves m.free m.cache p mv)
    (hno : ∀ s : SlotId, s.handle = h → ¬ p.AtWork m.cache s) :
    ∃ st',
      Standing.Path h .absent (Event.history h (mv.events i p m.cache)) st' ∧
      Stands ⟨mv.cacheAfter m.cache,
          (wake mv.woken? m.threads).set i (mv.thread p next)⟩
        h st' := by
  rcases hmv.begins hf with ⟨hf', hb⟩ | ⟨q, st', hq, hqw, hqt, hpath⟩
  · refine ⟨.absent, ?_, .absent hf'⟩
    rw [hinv.history_of_idle hi hmv hno hb]
    exact .refl
  · refine ⟨st', ?_, ?_⟩
    · rw [Event.history_eq_of_path hpath]
      exact hpath
    · rw [Move.thread_of_point? hq]
      exact .working (getElem?_set_wake_self hi) rfl hqw hqt

/-- A loaded slot that nobody is at work on stays as it is, though whoever moves
may begin a section on it. -/
theorem Inv.stands_of_still (hinv : m.Inv conduct) {s : SlotId}
    (hl : m.cache.Listed s) (hd : (m.cache.entry s).Loaded)
    (hn : ∀ (j : Nat) (t : Thread α), m.threads[j]? = some t →
      ¬ t.AtWork m.cache s)
    {i : Nat} {r : Request} {p : Point r} {next : r.Reply → Program α}
    {mv : Move r} (hi : m.threads[i]? = some (.busy r p next))
    (hmv : Moves m.free m.cache p mv) :
    Stands ⟨mv.cacheAfter m.cache,
        (wake mv.woken? m.threads).set i (mv.thread p next)⟩ s.handle
      (m.cache.entry s).standing := by
  have hidle : ¬ p.AtWork m.cache s := fun hw => hn i _ hi ⟨hw.listed, hw.how⟩
  have hhold : p.hold? ≠ some s := fun hh => hidle ⟨hl, .inr ⟨hh, hd.not_blank⟩⟩
  have hmade : m.cache.Made s := hinv.orderly.made s hl
  have hk : m.cache.Keeps (mv.cacheAfter m.cache) s :=
    hmv.effect.keeps hmade hhold
  by_cases hwork : ∃ q, mv.point? = some q ∧ q.AtWork (mv.cacheAfter m.cache) s
  · obtain ⟨q, hq, hqw⟩ := hwork
    have hqh : q.hold? = some s := by
      rcases hqw.how with ho | ⟨hh, -⟩
      · -- Nobody comes to own a slot that is there already.
        rcases hmv.owner?_of_point? hq ho with ho' | ⟨hnew, -⟩
        · exact absurd ⟨hl, .inl ho'⟩ hidle
        · exact absurd hmade hnew
      · exact hh
    rw [Move.thread_of_point? hq]
    exact .working (getElem?_set_wake_self hi) rfl hqw
      (hmv.tells_of_hold? (hinv.sound i _ hi).1 hq hqh hhold hd)
  · have hd' : ((mv.cacheAfter m.cache).entry s).Loaded := by
      rw [hk.entry]
      exact hd
    rw [← hk.entry]
    refine .still rfl (hk.listed.2 hl) hd' fun j t hj ht => ?_
    rcases getElem?_set_wake hj with ⟨rfl, rfl⟩ | ⟨-, t₀, ht₀, rfl⟩
    · exact hwork (ht.of_move hmv.ne_blocked)
    · exact hn j t₀ ht₀ ((Thread.atWork_roused.1 ht).of_keeps hk.symm)

/-- A worker goes on telling the same while another thread moves. -/
theorem Inv.stands_of_other (hinv : m.Inv conduct) {i j : Nat} {r r' : Request}
    {p : Point r} {p' : Point r'} {next : r.Reply → Program α}
    {next' : r'.Reply → Program α} {mv : Move r} {s : SlotId} (hij : j ≠ i)
    (hi : m.threads[i]? = some (.busy r p next))
    (hj : m.threads[j]? = some (.busy r' p' next'))
    (hmv : Moves m.free m.cache p mv) (hw : p'.AtWork m.cache s)
    (ht : p'.Tells st) :
    Stands ⟨mv.cacheAfter m.cache,
        (wake mv.woken? m.threads).set i (mv.thread p next)⟩ s.handle
      st := by
  have hk : m.cache.Keeps (mv.cacheAfter m.cache) s := by
    refine hinv.keeps_other hij hi hj hmv ?_ (hinv.orderly.made s hw.listed)
    rcases hw.how with ho | ⟨hh, -⟩
    · exact .inr ho
    · exact .inl (Point.slot?_of_hold? hh)
  have hw' : (Thread.busy r' p' next').AtWork (mv.cacheAfter m.cache) s :=
    Thread.AtWork.of_keeps ⟨hw.listed, hw.how⟩ hk
  have hj' : ((wake mv.woken? m.threads).set i (mv.thread p next))[j]? =
      some (.busy r' p' next') := by
    rw [getElem?_set_wake_of_ne hij hj, Thread.roused_of_tells ht]
  exact .working hj' rfl ⟨hw'.listed, hw'.how⟩ ht

/-- When somebody moves who is not at work on a handle, the handle stays where
it stands, or the one who moves begins to work on it. -/
theorem Inv.stands_of_idle (hinv : m.Inv conduct) (hst : m.Stands h st)
    {i : Nat} {r : Request} {p : Point r} {next : r.Reply → Program α}
    {mv : Move r} (hi : m.threads[i]? = some (.busy r p next))
    (hmv : Moves m.free m.cache p mv)
    (hno : ∀ s : SlotId, s.handle = h → ¬ p.AtWork m.cache s) :
    ∃ st', Standing.Path h st (Event.history h (mv.events i p m.cache)) st' ∧
      Stands ⟨mv.cacheAfter m.cache,
          (wake mv.woken? m.threads).set i (mv.thread p next)⟩
        h st' := by
  -- Nothing is brought for a handle that has a slot.
  have hquiet : ∀ s : SlotId, s.handle = h → m.cache.Listed s →
      Event.history h (mv.events i p m.cache) = [] := by
    intro s hs hl
    refine hinv.history_of_idle hi hmv hno fun x hx hh => ?_
    have hfree := Point.find?_of_brings? hx
    rw [hh, ← hs, hl] at hfree
    cases hfree
  cases hst with
  | absent hf => exact hinv.stands_of_absent hf hi hmv hno
  | @still s hs hl hd hn =>
    refine ⟨(m.cache.entry s).standing, ?_, ?_⟩
    · rw [hquiet s hs hl]
      exact .refl
    · subst hs
      exact hinv.stands_of_still hl hd hn hi hmv
  | @working j r' p' next' s _ hj hs hw ht =>
    have hij : j ≠ i := by
      rintro rfl
      rw [hi] at hj
      cases hj
      exact hno s hs hw
    refine ⟨st, ?_, ?_⟩
    · rw [hquiet s hs hw.listed]
      exact .refl
    · subst hs
      exact hinv.stands_of_other hij hi hj hmv hw ht

/-- A step leads every handle from where it stands to where it stands next. -/
theorem Inv.stands_step (hinv : m.Inv conduct) (hst : m.Stands h st) {i : Nat}
    (hs : m.step i = some m') :
    ∃ st', Standing.Path h st (Event.history h (m.events i)) st' ∧
      m'.Stands h st' := by
  obtain ⟨r, p, next, mv, hi, hmv, hev, rfl⟩ := step_cases hs
  rw [hev]
  by_cases hwork : ∃ s : SlotId, s.handle = h ∧ p.AtWork m.cache s
  · obtain ⟨s, hsh, hw⟩ := hwork
    exact hinv.stands_of_worker hst hi hmv hsh hw
  · exact hinv.stands_of_idle hst hi hmv fun s hsh hw => hwork ⟨s, hsh, hw⟩

theorem Stands.drift (hst : m.Stands h st) {c : Cache}
    (hc : m.cache.Drifts conduct c) : Stands { m with cache := c } h st := by
  have hkeep : ∀ s, m.cache.Keeps c s := Cache.Keeps.of_shelves hc.shelves
  cases hst with
  | absent hf =>
    refine .absent ?_
    show c.find? h = none
    rw [Cache.find?, Cache.shelf_eq_of_shelves hc.shelves]
    exact hf
  | @still s hs hl hd hn =>
    have hk := hkeep s
    have hd' : (c.entry s).Loaded := by
      rw [hk.entry]
      exact hd
    rw [← hk.entry]
    exact .still hs (hk.listed.2 hl) hd' fun j t hj ht =>
      hn j t hj (ht.of_keeps hk.symm)
  | @working i r p next s _ hi hs hw ht =>
    have hw' : (Thread.busy r p next).AtWork c s :=
      Thread.AtWork.of_keeps ⟨hw.listed, hw.how⟩ (hkeep s)
    exact .working hi hs ⟨hw'.listed, hw'.how⟩ ht

theorem Stands.stir {h : Handle} {st : Standing} (hst : m.Stands h st)
    (i : Nat) : (m.stir i).Stands h st := by
  cases hst with
  | absent hf => exact .absent hf
  | still hs hl hd hn =>
    refine .still hs hl hd fun j t hj ht => ?_
    obtain ⟨t₀, w, ht₀, rfl⟩ := exists_of_getElem?_stir hj
    exact hn j t₀ ht₀ (Thread.atWork_roused.1 ht)
  | working hi hs hw ht =>
    obtain ⟨w, hj⟩ := getElem?_stir (i := i) hi
    rw [Thread.roused_of_tells ht] at hj
    exact .working hj hs hw ht

/-- What befell a handle in a course leads from absence to where it stands. -/
theorem Course.stands {es : List Event} (hr : Course conduct m₀ es m)
    (h₀ : m₀.Starts conduct) (h : Handle) :
    ∃ st, Standing.Path h .absent (Event.history h es) st ∧ m.Stands h st := by
  induction hr with
  | refl => exact ⟨.absent, .refl, h₀.stands h⟩
  | step hr hs ih =>
    obtain ⟨st, hpath, hst⟩ := ih
    obtain ⟨st', hpath', hst'⟩ := (hr.inv h₀).stands_step hst hs
    refine ⟨st', ?_, hst'⟩
    rw [Event.history_append]
    exact hpath.trans hpath'
  | drift hr hc ih =>
    obtain ⟨st, hpath, hst⟩ := ih
    exact ⟨st, hpath, hst.drift hc⟩
  | stir hr i ih =>
    obtain ⟨st, hpath, hst⟩ := ih
    exact ⟨st, hpath, hst.stir i⟩

theorem Course.exists_stands {es : List Event} (hr : Course conduct m₀ es m)
    (h₀ : m₀.Starts conduct) (h : Handle) : ∃ st, m.Stands h st :=
  (hr.stands h₀ h).imp fun _ hst => hst.2

end Machine

/-! ### What callers are told -/

/-- The handle that a thread is amid a request about, if any. -/
def Thread.amid? {α : Type} : Thread α → Option Handle
  | .finished _ => none
  | .busy _ .start _ => none
  | .busy r _ _ => r.handle?

/-- Where a handle stands is what a caller who runs alone is told. -/
structure Cache.Shows (c : Cache) (h : Handle) (st : Standing) : Prop where
  on : ∀ x, st = .on x ↔
    ((Cache.state h).run c).1 = .online ∧ ((Cache.get h).run c).1 = .ok x
  off : ∀ x, st = .off x ↔
    ((Cache.state h).run c).1 = .offline ∧
    (c.lookup? h).bind Entry.held = some x
  absent : st = .absent ↔ ((Cache.state h).run c).1 = .unloaded

namespace Cache

variable {c : Cache} {h : Handle} {s : SlotId}

theorem shows_absent (hf : c.find? h = none) : c.Shows h .absent := by
  have hstate : ((Cache.state h).run c).1 = .unloaded := by
    show (c.visit h .state).1 = .unloaded
    rw [visit, hf]
    rfl
  refine ⟨fun x => iff_of_false nofun ?_, fun x => iff_of_false nofun ?_,
    iff_of_true rfl hstate⟩
  · rw [hstate]
    rintro ⟨hs, -⟩
    cases hs
  · rw [hstate]
    rintro ⟨hs, -⟩
    cases hs

theorem shows_of_loaded (hl : c.Listed s) (hm : c.Made s)
    (hd : (c.entry s).Loaded) : c.Shows s.handle (c.entry s).standing := by
  have hstate : ((Cache.state s.handle).run c).1 = (c.entry s).state := by
    show (c.visit s.handle .state).1 = _
    rw [visit, hl]
    rfl
  have hget : ((Cache.get s.handle).run c).1 = (c.entry s).get s.handle := by
    show (c.visit s.handle .get).1 = _
    rw [visit, hl]
    rfl
  have hheld : (c.lookup? s.handle).bind Entry.held = (c.entry s).held := by
    rw [lookup?_of_made hl hm]
    rfl
  obtain ⟨x, hx, ⟨hs, hst⟩ | ⟨hs, hst⟩⟩ := hd.standing_cases
  · refine ⟨fun y => ?_, fun y => ?_, ?_⟩
    · rw [hstate, hget, hst, Entry.get, hs, hx]
      simp
    · rw [hstate, hst, hs]
      simp
    · rw [hstate, hst, hs]
      simp
  · refine ⟨fun y => ?_, fun y => ?_, ?_⟩
    · rw [hstate, hst, hs]
      simp
    · rw [hstate, hheld, hst, hs, hx]
      simp
    · rw [hstate, hst, hs]
      simp

end Cache

/-! ### Who receives callbacks -/

/-- A callback went to the one kind that is registered for its handle's type,
which acted as it may, and came out as that kind had it. -/
structure Callback.Fits (conduct : Conduct) (c : Cache) (cb : Callback) :
    Prop where
  registered : c.Knows cb.handle.type cb.receiver
  acts : conduct cb.handle.type cb.receiver
  faithful : cb.Faithful

theorem Callback.Fits.mono {conduct : Conduct} {c c' : Cache} {cb : Callback}
    (h : cb.Fits conduct c) (hk : ∀ t k, c.Knows t k → c'.Knows t k) :
    cb.Fits conduct c' :=
  ⟨hk _ _ h.registered, h.acts, h.faithful⟩

/-- The kind that an errand calls is the one that the cache knows. -/
theorem Errand.knows_receiver {conduct : Conduct} {c : Cache} {r : Request}
    {hand : Hand} {h : Handle} {k : Kind} (errand : Errand r)
    (hb : errand.Briefed conduct c) (hh : hand.Holds conduct c)
    (hr : r.Honest conduct hand) (ha : r.handle? = some h)
    (hk : errand.receiver? = some k) : c.Knows h.type k ∧ conduct h.type k := by
  cases errand with
  | settle outcome =>
    cases ha
    cases hk
    exact hh.has hr
  | introduce =>
    cases ha
    cases hk
    exact hh.has hr
  | visit kind? =>
    cases ha
    cases hk
    rcases hb with ⟨hnone, -⟩ | ⟨k', hk', hknown⟩
    · cases hnone
    · cases hk'
      exact hknown
  | join => cases hk
  | look => cases hk

namespace Moves

variable {conduct : Conduct} {r : Request} {free : Free} {c : Cache}
  {p : Point r} {mv : Move r}

/-- Whoever brings something begins no callback. -/
theorem callback?_of_brings? (hmv : Moves free c p mv) (hp : p.Sound conduct c)
    (hb : p.brings? c ≠ none) : mv.callback? = none := by
  cases hcb : mv.callback? with
  | none => rfl
  | some cb =>
    obtain ⟨s, -, hw⟩ := hmv.atWork_of_callback? hp hcb
    cases p with
    | begun => exact absurd hw (not_atWork_of_idle rfl rfl)
    | _ => exact absurd rfl hb

/-- A callback that begins goes to the kind that the cache knows for its
handle. -/
theorem fits_of_callback? (hmv : Moves free c p mv) (hp : p.Sound conduct c)
    {hand : Hand} (hh : hand.Holds conduct c) (hr : r.Honest conduct hand)
    {cb : Callback} (hcb : mv.callback? = some cb) : cb.Fits conduct c := by
  cases hmv with
  | @read h k s bytes hread =>
    cases hcb
    cases hp.1
    obtain ⟨hknows, hacts⟩ := hh.has hr
    refine ⟨hknows, hacts, ?_⟩
    show Except.map _ _ = k.load s.handle bytes
    cases k.load s.handle bytes <;> rfl
  | @call _ hold call rest =>
    cases hcb
    obtain ⟨found, hsince⟩ := hp
    have hreach := Errand.reaches hsince.about hsince.does hsince.tail.1
    obtain ⟨hknows, hacts⟩ :=
      hold.errand.knows_receiver hsince.briefed hh hr hsince.about
        hreach.receiver
    rw [← hreach.handle] at hknows hacts
    exact ⟨hknows, hacts, hreach.faithful⟩
  | leave hev =>
    rw [callback?_leave] at hcb
    cases hcb
  | evict =>
    rw [callback?_leave] at hcb
    cases hcb
  | _ => cases hcb

end Moves

namespace Machine

variable {α : Type} {conduct : Conduct} {m m₀ m' : Machine α} {es : List Event}

/-- The log is what the record tells of callbacks. -/
theorem Course.log (hr : Course conduct m₀ es m) (h₀ : m₀.Starts conduct) :
    Event.callbacks es = m.cache.log := by
  induction hr with
  | refl => exact h₀.log.symm
  | @step es m m' i hr hs ih =>
    obtain ⟨r, p, next, mv, hi, hmv, hev, rfl⟩ := step_cases hs
    have hp := ((hr.inv h₀).sound i _ hi).1
    rw [hev, Event.callbacks_append,
      Event.callbacks_events i p _ mv (hmv.callback?_of_brings? hp), ih]
    exact hmv.log_cacheAfter.symm
  | drift hr hc ih =>
    rw [ih]
    exact hc.log.symm
  | stir hr i ih => exact ih

/-- Every callback went to the kind that is registered now. -/
theorem Course.fits (hr : Course conduct m₀ es m) (h₀ : m₀.Starts conduct) :
    ∀ cb ∈ m.cache.log, cb.Fits conduct m.cache := by
  induction hr with
  | refl =>
    intro cb hcb
    rw [h₀.log] at hcb
    cases hcb
  | @step es m m' i hr hs ih =>
    obtain ⟨r, p, next, mv, hi, hmv, hev, rfl⟩ := step_cases hs
    obtain ⟨hp, hand, hh, hhonest⟩ := (hr.inv h₀).sound i _ hi
    have hext := hmv.extends_cacheAfter hhonest.1
    intro cb hcb
    have hlog : cb ∈ mv.callback?.toList ++ m.cache.log :=
      hmv.log_cacheAfter ▸ hcb
    rcases List.mem_append.1 hlog with hnew | hold
    · exact (hmv.fits_of_callback? hp hh hhonest.1
        (Option.mem_toList.1 hnew)).mono hext.knows
    · exact (ih cb hold).mono hext.knows
  | drift hr hc ih =>
    intro cb hcb
    exact (ih cb (hc.log ▸ hcb)).mono hc.knows
  | stir hr i ih => exact ih

/-- What is registered for a type is not replaced. -/
theorem Inv.kind?_step (hinv : m.Inv conduct) {i : Nat}
    (hs : m.step i = some m') {t : TypeId} {k : Kind}
    (hk : m.cache.kind? t = some k) : m'.cache.kind? t = some k := by
  obtain ⟨r, p, next, mv, hi, hmv, -, rfl⟩ := step_cases hs
  obtain ⟨-, hand, -, hhonest⟩ := hinv.sound i _ hi
  rcases hmv.kind?_cacheAfter hhonest.1 t with heq | ⟨hnone, -⟩
  · exact heq.trans hk
  · rw [hk] at hnone
    cases hnone

/-- A handle that nobody is amid a request about has no slot, or stands where
its entry does. -/
theorem Stands.quiet_cases {h : Handle} {st : Standing} (hst : m.Stands h st)
    (hinv : m.Inv conduct)
    (hquiet : ∀ (i : Nat) (t : Thread α), m.threads[i]? = some t →
      t.amid? ≠ some h) :
    m.cache.find? h = none ∧ st = .absent ∨
      ∃ s, s.handle = h ∧ m.cache.Listed s ∧ (m.cache.entry s).Loaded ∧
        st = (m.cache.entry s).standing := by
  cases hst with
  | absent hf => exact .inl ⟨hf, rfl⟩
  | @still s hs hl hd hn => exact .inr ⟨s, hs, hl, hd, rfl⟩
  | @working i r p next s _ hi hs hw ht =>
    have habout : r.handle? = some s.handle := by
      refine (hinv.sound i _ hi).1.handle? ?_
      rcases hw.how with ho | ⟨hh, -⟩
      · exact .inl ho
      · exact .inr hh
    have hamid : (Thread.busy r p next).amid? = r.handle? := by
      cases p with
      | start => exact absurd hw (Moves.not_atWork_of_idle rfl rfl)
      | _ => rfl
    refine absurd ?_ (hquiet i _ hi)
    rw [hamid, habout, hs]

/-- A handle that nobody is amid a request about stands where callers are
told. -/
theorem Stands.shows {h : Handle} {st : Standing} (hst : m.Stands h st)
    (hinv : m.Inv conduct)
    (hquiet : ∀ (i : Nat) (t : Thread α), m.threads[i]? = some t →
      t.amid? ≠ some h) : m.cache.Shows h st := by
  rcases hst.quiet_cases hinv hquiet with ⟨hf, rfl⟩ | ⟨s, rfl, hl, hd, rfl⟩
  · exact Cache.shows_absent hf
  · exact Cache.shows_of_loaded hl (hinv.orderly.made s hl) hd

/-- However the threads interleave, and whatever the source and the kinds give:
what befell a handle leads from absence to one standing, step by step; while
nobody is amid a request about the handle, this is where callers are told that
it stands.  The record tells of every callback that was made; each went to the
kind that is registered for its handle's type and came out as this kind had it,
so that all callbacks of a type went to one kind; and what is registered is not
replaced. -/
theorem discipline (h₀ : m₀.Starts conduct) (hr : Course conduct m₀ es m) :
    (∀ h : Handle, ∃ st, Standing.Path h .absent (Event.history h es) st ∧
      ((∀ (i : Nat) (t : Thread α), m.threads[i]? = some t → t.amid? ≠ some h) →
        m.cache.Shows h st)) ∧
    Event.callbacks es = m.cache.log ∧
    (∀ cb ∈ m.cache.log, cb.Fits conduct m.cache) ∧
    (∀ cb ∈ m.cache.log, ∀ cb' ∈ m.cache.log, cb.handle.type = cb'.handle.type →
      cb.receiver.identity = cb'.receiver.identity) ∧
    ∀ (i : Nat) (m' : Machine α), m.step i = some m' →
      ∀ t k, m.cache.kind? t = some k → m'.cache.kind? t = some k := by
  have hinv : m.Inv conduct := hr.inv h₀
  have hfits := hr.fits h₀
  refine ⟨?_, hr.log h₀, hfits, ?_, ?_⟩
  · intro h
    obtain ⟨st, hpath, hst⟩ := hr.stands h₀ h
    exact ⟨st, hpath, fun hquiet => hst.shows hinv hquiet⟩
  · intro cb hcb cb' hcb' ht
    have hknows := (hfits cb hcb).registered
    rw [ht] at hknows
    exact hknows.unique (hfits cb' hcb').registered
  · intro i m' hs t k hk
    exact hinv.kind?_step hs hk

/-- A handle of another type than theirs. -/
def foreign : Handle := ⟨⟨2⟩, ⟨1⟩⟩

/-- Loads a handle, reloads it and unloads it. -/
def turnover (h : Handle) : Program (Except Failure Unit) :=
  (Cache.load h.type [h.name]).orStop fun _ =>
    (Cache.reload h [8]).orStop fun _ => Cache.unload h

theorem turnover_honest (h : Handle) : (turnover h).Honest conduct {} :=
  (Cache.load_honest _ _).orStop fun _ _ =>
    (Cache.reload_honest _ _).orStop fun _ _ => Cache.unload_honest _

/-- Two callers of a cache that knows two types, each with a kind of its own. -/
def twoTypes : Machine (Except Failure Unit) where
  cache :=
    { kinds := (Table.empty.put theirs.type (Kind.raw 3)).put
        foreign.type (Kind.raw 4)
      source := .memory ((Table.empty.put theirs [7]).put foreign [9]) }
  threads := [turnover theirs, turnover foreign].map Thread.ofProgram

/-- What is theirs acts as one kind, and what is foreign as another. -/
def twoTypesConduct : Conduct := fun t k =>
  t = theirs.type ∧ k = Kind.raw 3 ∨ t = foreign.type ∧ k = Kind.raw 4

theorem starts_twoTypes : twoTypes.Starts twoTypesConduct := by
  refine starts_of_kinds (acts_put (acts_put nofun (.inl ⟨rfl, rfl⟩))
    (.inr ⟨rfl, rfl⟩)) ?_
  intro p hp
  obtain ⟨h, -, rfl⟩ : ∃ h ∈ [theirs, foreign], turnover h = p :=
    List.mem_map.1 hp
  exact turnover_honest h

/-- Seven callbacks for each of two callers lead from absence to absence, and
each goes to the kind of its type. -/
theorem discipline_of_twoTypes :
    twoTypes.Starts twoTypesConduct ∧
      ∃ (es : List Event) (m : Machine (Except Failure Unit)),
        Course twoTypesConduct twoTypes es m ∧ m.cache.log.length = 14 ∧
          (∀ h ∈ [theirs, foreign],
            Standing.Path h .absent (Event.history h es) .absent ∧
              m.cache.Shows h .absent) ∧
          ∀ cb ∈ m.cache.log, cb.handle = theirs ∧ cb.receiver = Kind.raw 3 ∨
            cb.handle = foreign ∧ cb.receiver = Kind.raw 4 := by
  have hrun := exists_course twoTypesConduct twoTypes
    (List.replicate 20 0 ++ List.replicate 36 1 ++ List.replicate 16 0)
    (P := fun _ m => m.cache.log.length = 14 ∧
      (∀ h ∈ [theirs, foreign],
        m.cache.find? h = none ∧ ∀ t ∈ m.threads, t.amid? ≠ some h) ∧
      ∀ cb ∈ m.cache.log, cb.handle = theirs ∨ cb.handle = foreign)
    (by decide +kernel)
  obtain ⟨es, m, hr, hend⟩ := hrun
  obtain ⟨hlog, hquiet, hhandles⟩ := of_decide_eq_true hend
  obtain ⟨hstands, -, hfits, -⟩ := discipline starts_twoTypes hr
  refine ⟨starts_twoTypes, es, m, hr, hlog, fun h hh => ?_, fun cb hcb => ?_⟩
  · obtain ⟨hfree, hidle⟩ := hquiet h hh
    obtain ⟨st, hpath, hshows⟩ := hstands h
    have hshown := hshows fun i t hi => hidle t (List.mem_of_getElem? hi)
    have hst : st = .absent :=
      hshown.absent.2 ((Cache.shows_absent hfree).absent.1 rfl)
    subst hst
    exact ⟨hpath, hshown⟩
  · have hacts := (hfits cb hcb).acts
    rcases hhandles cb hcb with hh | hh <;> rw [hh] at hacts
    · rcases hacts with ⟨-, hk⟩ | ⟨ht, -⟩
      · exact .inl ⟨hh, hk⟩
      · exact absurd ht (by decide)
    · rcases hacts with ⟨ht, -⟩ | ⟨-, hk⟩
      · exact absurd ht (by decide)
      · exact .inr ⟨hh, hk⟩

end Machine

end ResourceHost
