import ResourceHost.Proofs.Threads.Discipline
import ResourceHost.Proofs.Threads.Stale

/-!
# No deadlock, and nobody sleeps for good

A thread that cannot move waits for a leaf lock, for the lock of a slot, or to
be woken.  Whoever holds a leaf lock waits for nothing; whoever holds the lock
of a slot waits at most for a leaf lock; and while somebody sleeps over a slot,
the thread that made the slot has still to wake the sleepers.  So some thread
can always move.  Sleepers may also wake for no reason, and go to sleep again.
-/

namespace ResourceHost

/-! ### Why a thread cannot move -/

theorem Move.begin_ne_blocked (r : Request) (c : Cache) :
    Move.begin r c ≠ .blocked := by
  intro hb
  cases r with
  | acquire h k =>
    simp only [begin] at hb
    split at hb <;> cases hb
  | add h k content =>
    simp only [begin] at hb
    split at hb <;> cases hb
  | visit h v =>
    simp only [begin] at hb
    split at hb
    · cases hb
    · split at hb <;> cases hb
  | _ => cases hb

/-- A thread that cannot move is about to take a leaf lock or the lock of a slot
that is not free, or sleeps. -/
theorem Move.blocked_cases {r : Request} {free : Free} {c : Cache} {p : Point r}
    (hb : Move.next free p c = .blocked) :
    (p.leaf? = none ∧ ∃ l, free.leaf l ≠ true) ∨
      (∃ s errand, p = .enter s errand ∧ free.slot s ≠ true) ∨
      ∃ s errand, p = .parked s errand := by
  cases p with
  | start =>
    cases hl : r.leaf? with
    | none =>
      simp only [next, hl] at hb
      exact absurd hb (begin_ne_blocked r c)
    | some l =>
      refine .inl ⟨rfl, l, fun hf => ?_⟩
      simp only [next, hl, hf, if_true] at hb
      cases hb
  | begun => exact absurd hb (begin_ne_blocked r c)
  | consult s errand locked =>
    refine .inl ⟨rfl, .registry, fun hf => ?_⟩
    simp only [next, hf, if_true] at hb
    cases hb
  | consulting s errand locked =>
    cases locked with
    | true => exact absurd hb (work_ne_blocked _ _ _)
    | false => cases hb
  | fetch s =>
    simp only [next, fetch] at hb
    split at hb <;> cases hb
  | loading s bytes => cases hb
  | enter s errand =>
    refine .inr (.inl ⟨s, errand, rfl, fun hf => ?_⟩)
    simp only [next, hf, if_true, enter] at hb
    split at hb
    · cases hb
    · split at hb
      · cases hb
      · exact work_ne_blocked _ _ _ hb
  | parked s errand => exact .inr (.inr ⟨s, errand, rfl⟩)
  | inside hold calls =>
    cases calls with
    | cons call rest => cases hb
    | nil =>
      simp only [next] at hb
      split at hb
      · cases hb
      · exact absurd hb (leave_ne_blocked hold c)
  | calling hold call rest => cases hb
  | evict hold =>
    refine .inl ⟨rfl, .table, fun hf => ?_⟩
    simp only [next, hf, if_true] at hb
    cases hb
  | evicting hold => exact absurd hb (leave_ne_blocked hold _)
  | rouse s a => cases hb

/-! ### Who has to wake the sleepers -/

/-- Has made a slot, and has not yet woken those who wait for it. -/
def Point.HasToWake (s : SlotId) {r : Request} (p : Point r) : Prop :=
  p.owner? = some s ∨ r.Opens s.handle ∧ ∃ a, p = .rouse s a

/-- Has the lock of a slot to fill it or to give it up, or has let the lock go
and is about to wake those who wait. -/
def Point.Settling (s : SlotId) {r : Request} : Point r → Prop
  | .inside hold _ | .calling hold _ _ | .evict hold | .evicting hold =>
    hold.errand.owns = true ∧ hold.slot = s
  | .rouse s' _ => s' = s ∧ r.Opens s.handle
  | _ => False

/-- The slot that a thread waits for, be it for the lock or to be woken. -/
def Point.awaited? {r : Request} : Point r → Option SlotId
  | .enter s _ | .parked s _ => some s
  | _ => none

theorem Errand.opens_of_owns {r : Request} {errand : Errand r} {s : SlotId}
    (ho : errand.owns = true) (hr : r.handle? = some s.handle) :
    r.Opens s.handle := by
  cases errand with
  | @settle h k outcome =>
    cases hr
    exact ⟨k, .inl rfl⟩
  | @introduce h k content =>
    cases hr
    exact ⟨k, .inr ⟨content, rfl⟩⟩
  | _ => cases ho

theorem Errand.waits_of_owns {r : Request} {errand : Errand r}
    (ho : errand.owns = true) (e : Entry) : errand.waits e = false := by
  cases errand <;> first | rfl | cases ho

theorem Errand.consults_of_owns {r : Request} {errand : Errand r}
    (ho : errand.owns = true) : errand.consults = .never := by
  cases errand <;> first | rfl | cases ho

theorem Errand.section?_of_owns {r : Request} {errand : Errand r}
    (ho : errand.owns = true) (s : SlotId) (e : Entry) :
    errand.section? s e ≠ none := by
  intro hsec
  cases errand <;> first | cases hsec | cases ho

theorem Hold.wakes_of_owns {r : Request} {hold : Hold r}
    (ho : hold.errand.owns = true) : hold.wakes = true := by
  obtain ⟨s, errand, sec⟩ := hold
  cases errand <;> first | rfl | cases ho

namespace Moves

variable {conduct : Conduct} {r : Request} {free : Free} {c : Cache}
  {p : Point r} {mv : Move r} {s : SlotId}

/-- Who lets go of a slot that it made goes on to wake those who wait. -/
theorem hasToWake_leave {hold : Hold r} {found : Entry}
    (ho : hold.errand.owns = true) (hs : hold.Since conduct c found [])
    (c' : Cache) :
    ∃ q, (Move.leave hold c').point? = some q ∧ q.HasToWake hold.slot := by
  refine ⟨.rouse hold.slot hold.sec.answer, ?_, .inr ⟨?_, _, rfl⟩⟩
  · unfold Move.leave
    simp only [Hold.wakes_of_owns ho, if_true]
    rfl
  · exact Errand.opens_of_owns ho hs.about

/-- Who made a slot does not end its request before it has woken those who
wait. -/
theorem hasToWake (hmv : Moves free c p mv) (hp : p.Sound conduct c)
    (ho : p.owner? = some s) : ∃ q, mv.point? = some q ∧ q.HasToWake s := by
  -- An owner goes on with its errand: it neither sleeps nor asks nor starts
  -- over.
  cases hmv with
  | unread hr => exact ⟨_, rfl, .inl ho⟩
  | read hr => exact ⟨_, rfl, .inl ho⟩
  | loaded hk => exact ⟨_, rfl, .inl ho⟩
  | rejected hk => exact ⟨_, rfl, .inl ho⟩
  | ask hf => exact ⟨_, rfl, .inl ho⟩
  | told =>
    obtain ⟨hown, -⟩ := Point.owner?_eq_some ho
    obtain ⟨-, -, hno, -⟩ := hp
    exact absurd (hno.symm.trans hown) Bool.false_ne_true
  | toldAndWork hsec =>
    obtain ⟨hown, -⟩ := Point.owner?_eq_some ho
    obtain ⟨-, -, hno, -⟩ := hp
    exact absurd (hno.symm.trans hown) Bool.false_ne_true
  | toldAndStart hsec =>
    obtain ⟨hown, -⟩ := Point.owner?_eq_some ho
    obtain ⟨-, -, hno, -⟩ := hp
    exact absurd (hno.symm.trans hown) Bool.false_ne_true
  | park hf hw =>
    obtain ⟨hown, -⟩ := Point.owner?_eq_some ho
    rw [Errand.waits_of_owns hown] at hw
    cases hw
  | hold hf hc =>
    obtain ⟨hown, -⟩ := Point.owner?_eq_some ho
    rw [Errand.consults_of_owns hown] at hc
    cases hc
  | work hf hw hc hsec => exact ⟨_, rfl, .inl ho⟩
  | restart hf hw hc hsec =>
    obtain ⟨hown, -⟩ := Point.owner?_eq_some ho
    exact absurd hsec (Errand.section?_of_owns hown _ _)
  | call => exact ⟨_, rfl, .inl ho⟩
  | back => exact ⟨_, rfl, .inl ho⟩
  | wait hev => exact ⟨_, rfl, .inl ho⟩
  | take hf => exact ⟨_, rfl, .inl ho⟩
  | leave hev =>
    obtain ⟨hown, rfl⟩ := Point.owner?_eq_some ho
    obtain ⟨found, hs⟩ := hp
    exact hasToWake_leave hown hs c
  | evict =>
    obtain ⟨hown, rfl⟩ := Point.owner?_eq_some ho
    obtain ⟨-, found, hs⟩ := hp
    exact hasToWake_leave hown hs _
  | answer ho' hr => rw [owner?_of_opening ho'] at ho; cases ho
  | look ho' => rw [owner?_of_opening ho'] at ho; cases ho
  | join ho' hs => rw [owner?_of_opening ho'] at ho; cases ho
  | load ho' hs => rw [owner?_of_opening ho'] at ho; cases ho
  | refuse ho' hs => rw [owner?_of_opening ho'] at ho; cases ho
  | insert ho' hs => rw [owner?_of_opening ho'] at ho; cases ho
  | absent ho' hs => rw [owner?_of_opening ho'] at ho; cases ho
  | find ho' hs hv => rw [owner?_of_opening ho'] at ho; cases ho
  | findAndAsk ho' hs hv => rw [owner?_of_opening ho'] at ho; cases ho
  | _ => cases ho

/-- A thread goes to sleep only over a slot that is still loading. -/
theorem loading_of_parked {errand : Errand r} (hmv : Moves free c p mv)
    (hq : mv.point? = some (.parked s errand)) :
    p = .enter s errand ∧ free.slot s = true ∧ errand.owns = false ∧
      (c.entry s).state = .loading ∧ mv.cacheAfter c = c := by
  cases hmv with
  | park hf hw =>
    cases hq
    cases errand with
    | join => exact ⟨rfl, hf, rfl, of_decide_eq_true hw, rfl⟩
    | _ => cases hw
  | leave hev => cases point?_leave _ _ _ hq
  | evict => cases point?_leave _ _ _ hq
  | _ => cases hq

end Moves

/-! ### Threads -/

namespace Thread

variable {α : Type}

def HasToWake (s : SlotId) : Thread α → Prop
  | .finished _ => False
  | .busy _ p _ => p.HasToWake s

def Settling (s : SlotId) : Thread α → Prop
  | .finished _ => False
  | .busy _ p _ => p.Settling s

def awaited? : Thread α → Option SlotId
  | .finished _ => none
  | .busy _ p _ => p.awaited?

/-- The slot over which a thread sleeps, until those who wait for it are
woken. -/
def asleep? : Thread α → Option SlotId
  | .busy _ (.parked s _) _ => some s
  | _ => none

variable {t : Thread α} {s : SlotId} {w : Option SlotId}

theorem asleep?_eq_some (h : t.asleep? = some s) :
    ∃ (r : Request) (errand : Errand r) (next : r.Reply → Program α),
      t = .busy r (.parked s errand) next := by
  cases t with
  | finished a => cases h
  | busy r p next =>
    cases p with
    | parked s' errand =>
      cases h
      exact ⟨r, errand, next, rfl⟩
    | _ => cases h

theorem HasToWake.roused (h : t.HasToWake s) : (t.roused w).HasToWake s := by
  cases t with
  | finished a => cases h
  | busy r p next =>
    rcases roused_busy w p next with heq | ⟨s', errand, rfl, heq⟩ <;> rw [heq]
    · exact h
    · rcases h with ho | ⟨-, a, ha⟩
      · exact .inl ho
      · cases ha

/-- Who sleeps on after others were woken slept before, and over another
slot. -/
theorem asleep?_of_roused (h : (t.roused w).asleep? = some s) :
    t.asleep? = some s ∧ w ≠ some s := by
  obtain ⟨r, errand, next, heq⟩ := asleep?_eq_some h
  cases t with
  | finished a => cases w <;> cases heq
  | busy r' p next' =>
    rcases roused_busy w p next' with hsame | ⟨s', errand', rfl, hwoken⟩
    · rw [hsame] at heq
      cases heq
      refine ⟨rfl, ?_⟩
      rintro rfl
      simp [Thread.roused, woken, Point.woken] at hsame
    · rw [hwoken] at heq
      cases heq

/-- Who sleeps has nobody to wake. -/
theorem not_hasToWake_of_asleep? {conduct : Conduct} {c : Cache} {s' : SlotId}
    (h : t.asleep? = some s') (ht : t.Sound conduct c) : ¬ t.HasToWake s := by
  obtain ⟨r, errand, next, rfl⟩ := asleep?_eq_some h
  obtain ⟨⟨-, -, hno, -⟩, -⟩ := ht
  rintro (ho | ⟨-, a, ha⟩)
  · have hown := (Point.owner?_eq_some ho).1
    exact absurd (hno.symm.trans hown) Bool.false_ne_true
  · cases ha

/-- Who has to wake others has not settled the slot, which is loading, or is
about it. -/
theorem HasToWake.cases {conduct : Conduct} {c : Cache} (h : t.HasToWake s)
    (ht : t.Sound conduct c) :
    (t.owner? = some s ∧ t.slot? = none ∧ (c.entry s).state = .loading) ∨
      t.Settling s := by
  cases t with
  | finished a => cases h
  | busy r p next =>
    rcases h with ho | ⟨hopens, a, rfl⟩
    · have hsound := ht.1
      have hfresh : c.Awaits s → (c.entry s).state = .loading := fun hw => by
        rw [hw.fresh]
        rfl
      cases p with
      | fetch s' =>
        cases ho
        exact .inl ⟨rfl, rfl, hfresh hsound.2.2⟩
      | loading s' bytes =>
        cases ho
        exact .inl ⟨rfl, rfl, hfresh hsound.2.2⟩
      | enter s' errand =>
        obtain ⟨hown, rfl⟩ := Point.owner?_eq_some ho
        exact .inl ⟨ho, rfl, hfresh (hsound.2.2.1 hown)⟩
      | consult s' errand locked =>
        obtain ⟨hown, -⟩ := Point.owner?_eq_some ho
        exact absurd (hsound.2.2.1.symm.trans hown) Bool.false_ne_true
      | consulting s' errand locked =>
        obtain ⟨hown, -⟩ := Point.owner?_eq_some ho
        exact absurd (hsound.2.2.1.symm.trans hown) Bool.false_ne_true
      | parked s' errand =>
        obtain ⟨hown, -⟩ := Point.owner?_eq_some ho
        exact absurd (hsound.2.2.1.symm.trans hown) Bool.false_ne_true
      | inside hold calls => exact .inr (Point.owner?_eq_some ho)
      | calling hold call rest => exact .inr (Point.owner?_eq_some ho)
      | evict hold => exact .inr (Point.owner?_eq_some ho)
      | evicting hold => exact .inr (Point.owner?_eq_some ho)
      | _ => cases ho
    · exact .inr ⟨rfl, hopens⟩

end Thread

/-! ### Sleepers -/

namespace Machine

variable {α : Type} {conduct : Conduct} {m m₀ m' : Machine α}

/-- Who sleeps will be woken: the thread that made the slot has still to do
so. -/
def Watched (m : Machine α) : Prop :=
  ∀ (i : Nat) (t : Thread α) (s : SlotId),
    m.threads[i]? = some t → t.asleep? = some s →
    ∃ (j : Nat) (t' : Thread α), m.threads[j]? = some t' ∧ t'.HasToWake s

theorem Starts.watched (h₀ : m₀.Starts conduct) : m₀.Watched := by
  intro i t s hi hs
  obtain ⟨p, rfl, -⟩ := h₀.thread hi
  cases p <;> cases hs

/-- A slot that is free and loading has a thread that made it. -/
theorem Inv.owner_of_loading (hinv : m.Inv conduct) {s : SlotId} {st : Standing}
    (hst : m.Stands s.handle st) (hf : m.free.slot s = true)
    (hs : (m.cache.entry s).state = .loading) :
    ∃ (j : Nat) (t : Thread α), m.threads[j]? = some t ∧ t.owner? = some s := by
  have hfresh : m.cache.Listed s ∧ m.cache.entry s = Entry.fresh := by
    cases hinv.settled s hf with
    | loading hl he => exact ⟨hl, he⟩
    | loaded hl he =>
      rcases he.state with h | h <;> rw [hs] at h <;> cases h
    | gone hl he =>
      have h := he.state
      rw [hs] at h
      cases h
  obtain ⟨hl, he⟩ := hfresh
  cases hst with
  | absent hn =>
    rw [hl] at hn
    cases hn
  | @still s' hs' hl' hd hn =>
    obtain rfl : s' = s := hl'.unique hl hs'
    exact absurd (.inl he) hd.not_blank
  | @working j r p next s' _ hj hs' hw ht =>
    obtain rfl : s' = s := hw.listed.unique hl hs'
    rcases hw.how with ho | ⟨-, hb⟩
    · exact ⟨j, _, hj, ho⟩
    · exact absurd (.inl he) hb

/-- A step leaves every sleeper with somebody to wake it. -/
theorem Inv.watched_step (hinv : m.Inv conduct) (hw : m.Watched)
    (hst : ∀ h, ∃ st, m.Stands h st) {i : Nat} (hs : m.step i = some m') :
    m'.Watched := by
  obtain ⟨r, p, next, mv, hi, hmv, -, rfl⟩ := step_cases hs
  have hp := (hinv.sound i _ hi).1
  -- Whoever else has to wake the sleepers has to do so after the step.
  have hother : ∀ {k : Nat} {t : Thread α} {s : SlotId}, k ≠ i →
      m.threads[k]? = some t →
      t.HasToWake s → ∃ (j : Nat) (t' : Thread α),
        ((wake mv.woken? m.threads).set i (mv.thread p next))[j]? = some t' ∧
        t'.HasToWake s := by
    intro k t s hk ht hwakes
    exact ⟨k, _, getElem?_set_wake_of_ne hk ht, hwakes.roused⟩
  intro j t s hj hasleep
  rcases getElem?_set_wake hj with ⟨rfl, rfl⟩ | ⟨hji, t₀, ht₀, rfl⟩
  · -- The thread that moved has just gone to sleep, over a slot that is
    -- loading.
    obtain ⟨r', errand, next', heq⟩ := Thread.asleep?_eq_some hasleep
    cases hmv' : mv with
    | blocked => exact absurd hmv' hmv.ne_blocked
    | reply a w c =>
      rw [hmv', Move.thread] at heq
      cases hnext : next a <;> rw [hnext] at heq <;> cases heq
    | go q c =>
      subst hmv'
      cases heq
      obtain ⟨rfl, hf, hno, hload, -⟩ := hmv.loading_of_parked rfl
      obtain ⟨st, hst⟩ := hst s.handle
      obtain ⟨k, t', hk, hown⟩ := hinv.owner_of_loading hst hf hload
      refine hother ?_ hk ?_
      · rintro rfl
        rw [hi] at hk
        cases hk
        have howns := (Point.owner?_eq_some hown).1
        exact absurd (hno.symm.trans howns) Bool.false_ne_true
      · cases t' with
        | finished a => cases hown
        | busy r' p' next'' => exact .inl hown
  · obtain ⟨hslept, hwoken⟩ := Thread.asleep?_of_roused hasleep
    obtain ⟨k, t', hk, hwakes⟩ := hw j t₀ s ht₀ hslept
    by_cases hki : k = i
    · subst hki
      rw [hi] at hk
      cases hk
      rcases hwakes with hown | ⟨-, a, rfl⟩
      · obtain ⟨q, hq, hqw⟩ := hmv.hasToWake hp hown
        refine ⟨k, _, getElem?_set_wake_self hi, ?_⟩
        rw [Move.thread_of_point? hq]
        exact hqw
      · cases hmv with
        | answer ho hr => rcases ho with ⟨h, -⟩ | h <;> cases h
        | rouse => exact absurd rfl hwoken
        | look ho => rcases ho with ⟨h, -⟩ | h <;> cases h
        | join ho hs => rcases ho with ⟨h, -⟩ | h <;> cases h
        | load ho hs => rcases ho with ⟨h, -⟩ | h <;> cases h
        | refuse ho hs => rcases ho with ⟨h, -⟩ | h <;> cases h
        | insert ho hs => rcases ho with ⟨h, -⟩ | h <;> cases h
        | absent ho hs => rcases ho with ⟨h, -⟩ | h <;> cases h
        | find ho hs hv => rcases ho with ⟨h, -⟩ | h <;> cases h
        | findAndAsk ho hs hv => rcases ho with ⟨h, -⟩ | h <;> cases h
    · exact hother hki hk hwakes

theorem Watched.drift (hw : m.Watched) (c : Cache) :
    Watched { m with cache := c } := hw

theorem Watched.stir (hw : m.Watched) (i : Nat) : (m.stir i).Watched := by
  intro j t s hj hasleep
  obtain ⟨t₀, w, ht₀, rfl⟩ := exists_of_getElem?_stir hj
  obtain ⟨k, t', hk, hwakes⟩ :=
    hw j t₀ s ht₀ (Thread.asleep?_of_roused hasleep).1
  obtain ⟨w', hk'⟩ := getElem?_stir (i := i) hk
  exact ⟨k, _, hk', hwakes.roused⟩

/-- Along a course every sleeper has somebody to wake it. -/
theorem Course.watched (hr : Course conduct m₀ es m) (h₀ : m₀.Starts conduct) :
    m.Watched := by
  induction hr with
  | refl => exact h₀.watched
  | step hr hs ih => exact (hr.inv h₀).watched_step ih (hr.exists_stands h₀) hs
  | drift hr hc ih => exact ih.drift _
  | stir hr i ih => exact ih.stir i

/-! ### Somebody can move -/

section

variable {i : Nat} {r : Request} {p : Point r} {next : r.Reply → Program α}

/-- Whoever holds a leaf lock waits for nothing. -/
theorem exists_step_of_leaf? (hi : m.threads[i]? = some (.busy r p next))
    (hl : p.leaf? ≠ none) : ∃ m', m.step i = some m' := by
  rw [← Option.isSome_iff_exists, Option.isSome_iff_ne_none]
  intro hs
  rcases Move.blocked_cases (next_eq_blocked_of_step hi hs) with
    ⟨hnone, -⟩ | ⟨s, errand, rfl, -⟩ | ⟨s, errand, rfl⟩
  · exact hl hnone
  · exact hl rfl
  · exact hl rfl

end

/-- While somebody is not through, somebody can move. -/
theorem Inv.exists_step (hinv : m.Inv conduct) (hw : m.Watched) {i : Nat}
    {t : Thread α} (hi : m.threads[i]? = some t) (ht : ∀ a, t ≠ .finished a) :
    ∃ j m', m.step j = some m' := by
  refine Classical.byContradiction fun hstuck => ?_
  have hnone : ∀ j, m.step j = none := by
    intro j
    rw [Option.eq_none_iff_forall_ne_some]
    exact fun m' hs => hstuck ⟨j, m', hs⟩
  -- A leaf lock is held by one who can move.
  have hleaf : ∀ l, m.free.leaf l = true := by
    intro l
    refine Classical.byContradiction fun hf => ?_
    obtain ⟨j, u, hj, hu⟩ := exists_leaf_of_not_free hf
    cases u with
    | finished a => cases hu
    | busy r p next =>
      have hheld : p.leaf? ≠ none := by
        intro hno
        cases hno.symm.trans hu
      obtain ⟨m', hs⟩ := exists_step_of_leaf? hj hheld
      exact hstuck ⟨j, m', hs⟩
  -- So the lock of a slot is held by one who can move.
  have hslot : ∀ s, m.free.slot s = true := by
    intro s
    refine Classical.byContradiction fun hf => ?_
    obtain ⟨j, u, hj, hu⟩ := exists_slot_of_not_free hf
    cases u with
    | finished a => cases hu
    | busy r p next =>
      rcases Move.blocked_cases (next_eq_blocked_of_step hj (hnone j)) with
        ⟨-, l, hl⟩ | ⟨s', errand, rfl, -⟩ | ⟨s', errand, rfl⟩
      · exact hl (hleaf l)
      · cases hu
      · cases hu
  -- So whoever is not through sleeps, also the one who has to wake the
  -- sleepers.
  have hasleep : ∀ (j : Nat) (u : Thread α), m.threads[j]? = some u →
      (∀ a, u ≠ .finished a) →
      ∃ s, u.asleep? = some s := by
    intro j u hj hu
    cases u with
    | finished a => exact absurd rfl (hu a)
    | busy r p next =>
      rcases Move.blocked_cases (next_eq_blocked_of_step hj (hnone j)) with
        ⟨-, l, hl⟩ | ⟨s, errand, rfl, hs⟩ | ⟨s, errand, rfl⟩
      · exact absurd (hleaf l) hl
      · exact absurd (hslot s) hs
      · exact ⟨s, rfl⟩
  obtain ⟨s, hs⟩ := hasleep i t hi ht
  obtain ⟨j, u, hj, hu⟩ := hw i t s hi hs
  have hbusy : ∀ a, u ≠ .finished a := by
    rintro a rfl
    exact hu
  obtain ⟨s', hs'⟩ := hasleep j u hj hbusy
  exact Thread.not_hasToWake_of_asleep? hs' (hinv.sound j u hj) hu

/-- However the threads interleave, and whether or not sleepers wake for no
reason: while somebody is not through, somebody can move; while somebody sleeps
over a slot, the slot is loading and the thread that made it has not begun to
settle it, or a thread that settles it has still to wake those who wait; and
whoever holds a leaf lock can move, and waits for no slot. -/
theorem progress (h₀ : m₀.Starts conduct) (hr : Course conduct m₀ es m) :
    ((∃ t ∈ m.threads, ∀ a, t ≠ .finished a) → ∃ i m', m.step i = some m') ∧
    (∀ (i : Nat) (t : Thread α) (s : SlotId), m.threads[i]? = some t →
      t.asleep? = some s →
      ∃ (j : Nat) (t' : Thread α), m.threads[j]? = some t' ∧
        ((m.cache.entry s).state = .loading ∧ t'.owner? = some s ∧
          t'.slot? = none ∨
          t'.Settling s)) ∧
    ∀ (i : Nat) (t : Thread α), m.threads[i]? = some t → t.leaf? ≠ none →
      t.awaited? = none ∧ ∃ m', m.step i = some m' := by
  have hinv : m.Inv conduct := hr.inv h₀
  have hw : m.Watched := hr.watched h₀
  refine ⟨?_, ?_, ?_⟩
  · rintro ⟨t, hmem, ht⟩
    obtain ⟨i, hi⟩ := List.getElem?_of_mem hmem
    exact hinv.exists_step hw hi ht
  · intro i t s hi hs
    obtain ⟨j, t', hj, hwakes⟩ := hw i t s hi hs
    refine ⟨j, t', hj, ?_⟩
    rcases hwakes.cases (hinv.sound j t' hj) with ⟨ho, hs, hload⟩ | hset
    · exact .inl ⟨hload, ho, hs⟩
    · exact .inr hset
  · intro i t hi hl
    cases t with
    | finished a => exact absurd rfl hl
    | busy r p next =>
      refine ⟨?_, exists_step_of_leaf? hi hl⟩
      cases p with
      | enter s errand => exact absurd rfl hl
      | parked s errand => exact absurd rfl hl
      | _ => rfl

/-- One of two callers is within the callback that loads, and the other sleeps:
the first can move, and has still to settle the slot. -/
theorem progress_of_sleeper :
    (callers [loader, loader]).Starts rawConduct ∧
      ∃ (es : List Event) (m : Machine (Except Failure Unit))
        (t : Thread (Except Failure Unit)) (s : SlotId),
        Course rawConduct (callers [loader, loader]) es m ∧
          m.threads[1]? = some t ∧
          t.asleep? = some s ∧ (∃ i m', m.step i = some m') ∧
          ∃ (j : Nat) (t' : Thread (Except Failure Unit)),
            m.threads[j]? = some t' ∧
            ((m.cache.entry s).state = .loading ∧ t'.owner? = some s ∧
              t'.slot? = none ∨
              t'.Settling s) := by
  have h₀ : (callers [loader, loader]).Starts rawConduct := by
    refine starts_callers fun p hp => ?_
    have hloader : p = loader := by simpa using hp
    rw [hloader]
    exact Cache.load_honest _ _
  have hrun := exists_course rawConduct (callers [loader, loader])
    (List.replicate 5 1 ++ List.replicate 5 0)
    (P := fun _ m => m.threads[1]?.bind Thread.asleep? = some ⟨theirs, 0⟩)
    (by decide +kernel)
  obtain ⟨es, m, hr, hend⟩ := hrun
  obtain ⟨t, ht, hs⟩ := Option.bind_eq_some_iff.1 (of_decide_eq_true hend)
  obtain ⟨hmove, hsleep, -⟩ := progress h₀ hr
  refine ⟨h₀, es, m, t, ⟨theirs, 0⟩, hr, ht, hs, ?_, hsleep 1 t _ ht hs⟩
  refine hmove ⟨t, List.mem_of_getElem? ht, ?_⟩
  rintro a rfl
  cases hs

end Machine

end ResourceHost
