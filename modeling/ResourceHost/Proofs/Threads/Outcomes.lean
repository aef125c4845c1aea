import ResourceHost.Proofs.Threads.Progress
import ResourceHost.Proofs.Threads.Stories

/-!
# What loads come to

The thread that made a slot ends its load with an outcome: that the source has
no bytes, what a kind makes of the bytes, or a content that was brought.  What
is true of each of these is true of whatever outcome a thread is about to end a
load with, from where it has the outcome to where the outcome is stored.
-/

namespace ResourceHost

/-- True of whatever a load may come to whose kind acts as it may. -/
structure Conduct.Yields (conduct : Conduct)
    (P : SlotId → Except Failure Representation → Prop) : Prop where
  unread : ∀ s why, P s (.error (.noBytes s.handle why))
  loaded : ∀ s k bytes content, conduct s.handle.type k →
    k.load s.handle bytes = .ok content →
    P s (.ok (Entry.firstObject s content))
  rejected : ∀ s k bytes f, conduct s.handle.type k →
    k.load s.handle bytes = .error f →
    P s (.error (.loader s.handle f))

/-- Ends the load of a slot, if it ends any, with an outcome of which `P` is
true. -/
def Errand.Bears (P : SlotId → Except Failure Representation → Prop)
    (s : SlotId) {r : Request} : Errand r → Prop
  | .settle outcome => P s outcome
  | .introduce (c := content) => P s (.ok (Entry.firstObject s content))
  | _ => True

/-- What a thread is about to end a load with is something of which `P` is
true. -/
def Point.Bears (P : SlotId → Except Failure Representation → Prop)
    {r : Request} : Point r → Prop
  | .consult s errand _ | .consulting s errand _ | .enter s errand
  | .parked s errand =>
    errand.Bears P s
  | .inside hold _ | .calling hold _ _ | .evict hold | .evicting hold =>
    hold.errand.Bears P hold.slot
  | _ => True

/-- The kind that a request loads with acts as it may. -/
def Request.Acts (conduct : Conduct) : Request → Prop
  | .acquire h k => conduct h.type k
  | _ => True

theorem Request.Honest.acts {conduct : Conduct} {hand : Hand} {r : Request}
    {c : Cache} (hr : r.Honest conduct hand) (hh : hand.Holds conduct c) :
    r.Acts conduct := by
  cases r with
  | acquire h k => exact (hh.has hr).2
  | _ => trivial

section

variable {P : SlotId → Except Failure Representation → Prop} {conduct : Conduct}
  {r : Request} {free : Free} {c : Cache} {p q : Point r} {mv : Move r}

theorem Errand.Bears.informed {s : SlotId} {errand : Errand r}
    (h : errand.Bears P s) (kind? : Option Kind) :
    (errand.informed kind?).Bears P s := by
  cases errand <;> exact h

/-- An outcome that a move makes known is one that a load may come to, or was
brought. -/
theorem Moves.bears (h : Moves free c p mv) (hP : conduct.Yields P)
    (hr : r.Acts conduct) (hp : p.Sound conduct c) (hb : p.Bears P)
    (hx : ∀ x, p.brings? c = some x → P x.object.slot (.ok x))
    (hq : mv.point? = some q) : q.Bears P := by
  cases h with
  | @insert h' k content _ ho hs =>
    cases hq
    obtain rfl := begun_of_opening ho (l := .table) rfl
    refine hx (Entry.firstObject (c.nextSlot h') content) ?_
    simp [Point.brings?, Request.brings?, Cache.isListed_eq_isSome, hs]
  | unread hsrc =>
    cases hq
    exact hP.unread _ _
  | loaded hk =>
    cases hq
    obtain ⟨ha, -⟩ := hp
    cases ha
    exact hP.loaded _ _ _ _ hr hk
  | rejected hk =>
    cases hq
    obtain ⟨ha, -⟩ := hp
    cases ha
    exact hP.rejected _ _ _ _ hr hk
  | told =>
    cases hq
    exact hb.informed _
  | toldAndWork hs =>
    cases hq
    exact hb.informed _
  | leave hev =>
    rw [point?_leave _ _ _ hq]
    trivial
  | evict =>
    rw [point?_leave _ _ _ hq]
    trivial
  | ask hf => cases hq; exact hb
  | park hf hw => cases hq; exact hb
  | hold hf hc => cases hq; exact hb
  | work hf hw hc hs => cases hq; exact hb
  | call => cases hq; exact hb
  | back => cases hq; exact hb
  | wait hev => cases hq; exact hb
  | take hf => cases hq; exact hb
  | _ => cases hq <;> trivial

end

/-! ### Along a course -/

namespace Thread

variable {α : Type} {P : SlotId → Except Failure Representation → Prop}
  {t : Thread α}

def Bears (P : SlotId → Except Failure Representation → Prop) : Thread α → Prop
  | .finished _ => True
  | .busy _ p _ => p.Bears P

theorem Bears.roused (h : t.Bears P) (w : Option SlotId) :
    (t.roused w).Bears P := by
  cases t with
  | finished a => cases w <;> trivial
  | busy r p next =>
    rcases roused_busy w p next with heq | ⟨s, errand, rfl, heq⟩ <;>
      rw [heq] <;> exact h

theorem bears_ofProgram (p : Program α) : (ofProgram p).Bears P := by
  cases p <;> trivial

end Thread

namespace Machine

variable {α : Type} {conduct : Conduct} {m₀ m m' : Machine α} {es : List Event}
  {P : SlotId → Except Failure Representation → Prop}

/-- What is brought in a step is recorded. -/
theorem mem_events_of_brings? {i : Nat} {r : Request} {p : Point r}
    {mv : Move r} {c : Cache} {x : Representation} (hx : p.brings? c = some x) :
    Event.befell (.brought x) ∈ mv.events i p c := by
  simp [Move.events, Move.marks, Move.happening?, hx]

/-- Along a course every thread is about to end loads with outcomes of which `P`
is true, if `P` is true of what was brought. -/
theorem Course.bears (h : Course conduct m₀ es m) (h₀ : m₀.Starts conduct)
    (hP : conduct.Yields P)
    (hx : ∀ x, Event.befell (.brought x) ∈ es → P x.object.slot (.ok x)) :
    ∀ t ∈ m.threads, t.Bears P := by
  induction h with
  | refl =>
    intro t ht
    obtain ⟨p, rfl, -⟩ := h₀.threads t ht
    exact Thread.bears_ofProgram p
  | step h hs ih =>
    have ih := ih fun x hmem => hx x (List.mem_append_right _ hmem)
    obtain ⟨r, p, next, mv, hi, hmv, hev, rfl⟩ := step_cases hs
    obtain ⟨hp, hand, hh, hr⟩ := (h.inv h₀).sound _ _ hi
    refine forall_mem_set_wake ih (fun t w ht => ht.roused w) ?_ _
    refine of_moved hmv.ne_blocked (fun q hq => ?_) Thread.bears_ofProgram
    refine hmv.bears hP (hr.1.acts hh) hp (ih _ (List.mem_of_getElem? hi)) ?_ hq
    intro x hbrings
    refine hx x (List.mem_append_left _ ?_)
    rw [hev]
    exact mem_events_of_brings? hbrings
  | drift h hc ih => exact ih hx
  | stir h i ih => exact forall_mem_stir (ih hx) (fun t w ht => ht.roused w) i

end Machine

end ResourceHost
