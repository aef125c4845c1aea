import ResourceHost.Proofs.Threads.Contents

/-!
# Objects

A representation is one object.  Once a slot has held it and its lock is free,
the slot holds that very object or one made after it: serials only grow, for
nobody is left who could fill the slot anew.  So whatever is met again under the
name of an object is that object, with the content it has had from the start.
-/

namespace ResourceHost

/-! ### What is true of everything -/

section

variable {Q : Except Failure Representation → Prop}

theorem Entry.Stores.of_forall {e : Entry} (he : e.Stores fun _ => True)
    (hQ : ∀ o, Q o) : e.Stores Q :=
  ⟨fun _ _ => hQ _, fun _ _ => hQ _, he.full⟩

theorem Section.Stores.of_forall {α : Type} {sec : Section α}
    (hs : sec.Stores fun _ => True) (hQ : ∀ o, Q o) : sec.Stores Q :=
  ⟨fun call hcall => (hs.calls call hcall).of_forall hQ, hs.entry.of_forall hQ⟩

end

/-! ### Earlier and later objects -/

namespace Representation

/-- What may come into a slot after `r` has been there: in the slot of `r` only
`r` itself and later objects. -/
def Precedes (r : Representation) (s : SlotId) :
    Except Failure Representation → Prop
  | .ok x => s = r.object.slot → x = r ∨ r.object.serial < x.object.serial
  | .error _ => True

variable {r : Representation} {conduct : Conduct}

theorem precedes_of_ne {s : SlotId} (hs : s ≠ r.object.slot)
    (o : Except Failure Representation) : r.Precedes s o := by
  cases o with
  | ok x => exact fun heq => absurd heq hs
  | error f => trivial

theorem precedes_renews : conduct.Renews r.Precedes := by
  rintro s k old bytes content - hold - hs
  rcases hold hs with rfl | hlt
  · exact .inr (Nat.lt_succ_self _)
  · exact .inr (Nat.lt_succ_of_lt hlt)

/-- Nothing that is answered about a handle says which slot it is from. -/
theorem granted_precedes {req : Request} {a : req.Reply}
    (ha : req.Granted (fun _ _ => True) a) : req.Granted r.Precedes a := by
  cases req with
  | acquire h k => exact fun f _ => ⟨⟨h, 0⟩, rfl, trivial⟩
  | visit h v =>
    refine ⟨ha.1, fun x _ => ⟨⟨h, r.object.slot.turn + 1⟩, rfl,
      precedes_of_ne ?_ _⟩⟩
    intro heq
    exact absurd (congrArg SlotId.turn heq) (Nat.succ_ne_self _)
  | _ => trivial

end Representation

/-! ### Who fills a slot -/

section

variable {r : Representation} {req : Request} {p : Point req} {s : SlotId}

/-- Only who made a slot is about to fill it. -/
theorem Errand.bears_precedes {errand : Errand req}
    (ho : errand.owns = true → s ≠ r.object.slot) :
    errand.Bears r.Precedes s := by
  cases errand with
  | settle outcome => exact Representation.precedes_of_ne (ho rfl) _
  | @introduce h k content =>
    exact Representation.precedes_of_ne (ho rfl)
      (.ok (Entry.firstObject s content))
  | _ => trivial

theorem Point.bears_precedes (ho : p.owner? ≠ some r.object.slot) :
    p.Bears r.Precedes := by
  have herrand : ∀ {s : SlotId} {errand : Errand req},
      p.owner? = (if errand.owns then some s else none) →
      errand.Bears r.Precedes s := by
    intro s errand hp
    refine Errand.bears_precedes fun howns heq => ho ?_
    rw [hp, howns, heq]
    rfl
  cases p with
  | consult s errand locked => exact herrand rfl
  | consulting s errand locked => exact herrand rfl
  | enter s errand => exact herrand rfl
  | parked s errand => exact herrand rfl
  | inside hold calls => exact herrand rfl
  | calling hold call rest => exact herrand rfl
  | evict hold => exact herrand rfl
  | evicting hold => exact herrand rfl
  | _ => trivial

/-- Who does not hold the slot of `r` puts nothing there. -/
theorem Point.stores_precedes (hp : p.Stores fun _ _ => True)
    (hs : p.slot? ≠ some r.object.slot) : p.Stores r.Precedes := by
  have hhold : ∀ {hold : Hold req}, p.slot? = some hold.slot →
      hold.sec.Stores (fun _ => True) ∧
      req.Granted (fun _ _ => True) hold.sec.answer →
      hold.sec.Stores (r.Precedes hold.slot) ∧
      req.Granted r.Precedes hold.sec.answer := by
    intro hold hslot hst
    have hne : hold.slot ≠ r.object.slot := fun heq => hs (by rw [hslot, heq])
    exact ⟨hst.1.of_forall (Representation.precedes_of_ne hne),
      Representation.granted_precedes hst.2⟩
  cases p with
  | inside hold calls => exact hhold rfl hp
  | calling hold call rest => exact hhold rfl hp
  | evict hold => exact hhold rfl hp
  | evicting hold => exact hhold rfl hp
  | rouse s a => exact Representation.granted_precedes hp
  | _ => trivial

end

/-! ### After an object has been held -/

namespace Machine

variable {α : Type} {conduct : Conduct} {m₀ m m' : Machine α}
  {es es' : List Event} {r x : Representation} {s : SlotId}

/-- The slot of `r` is filled, and nothing earlier than `r` comes there any
more. -/
structure Outlives (r : Representation) (m : Machine α) : Prop where
  made : m.cache.Made r.object.slot
  filled : ∀ t ∈ m.threads, t.owner? ≠ some r.object.slot
  entries : ∀ s, (m.cache.entry s).Stores (r.Precedes s)
  threads : ∀ t ∈ m.threads, t.Stores r.Precedes

/-- What an entry holds is an object of its slot. -/
theorem Course.slot_of_held (h : Course conduct m₀ es m)
    (h₀ : m₀.Starts conduct) (hx : (m.cache.entry s).held = some x) :
    x.object.slot = s := by
  have hyields : conduct.Yields fun s o => ∀ x, o = .ok x →
      x.object.slot = s := by
    refine ⟨nofun, fun s k bytes content _ _ x hx => ?_, nofun⟩
    cases hx
    rfl
  have hrenews : conduct.Renews fun s o => ∀ x, o = .ok x →
      x.object.slot = s := by
    intro s k old bytes content _ hold _ x hx
    cases hx
    exact hold old rfl
  have hstores :=
    (h.stores h₀ hyields hrenews fun x _ x' hx' => by cases hx'; rfl).1 s
  exact hstores.held x hx x rfl

/-- Whatever entries and threads keep, loaded entries keep something. -/
theorem Course.stores_something (h : Course conduct m₀ es m)
    (h₀ : m₀.Starts conduct) :
    (∀ s, (m.cache.entry s).Stores fun _ => True) ∧
      ∀ t ∈ m.threads, t.Stores fun _ _ => True := by
  have hstores := h.stores (P := fun _ _ => True) h₀
    ⟨fun _ _ => trivial, fun _ _ _ _ _ _ => trivial, fun _ _ _ _ _ _ => trivial⟩
    (fun _ _ _ _ _ _ _ _ => trivial) fun _ _ => trivial
  exact ⟨hstores.1, hstores.2.1⟩

/-- Whoever still has to fill a slot finds nothing in it. -/
theorem Inv.owner?_ne_of_held (hinv : m.Inv conduct)
    (hfree : m.free.slot s = true) (hr : (m.cache.entry s).held = some r) :
    ∀ t ∈ m.threads, t.owner? ≠ some s := by
  intro t ht ho
  obtain ⟨i, hi⟩ := List.getElem?_of_mem ht
  cases t with
  | finished a => cases ho
  | busy req p next =>
    rcases Point.hold?_or_awaits (hinv.sound i _ hi).1 ho with hh | ⟨-, hw⟩
    · exact free_slot_iff.1 hfree i _ hi (Point.slot?_of_hold? hh)
    · rw [hw.fresh] at hr
      cases hr

/-- What is held in a slot whose lock is free is outlived by nothing earlier. -/
theorem Course.outlives_of_held (h : Course conduct m₀ es m)
    (h₀ : m₀.Starts conduct) (hfree : m.free.slot s = true)
    (hr : (m.cache.entry s).held = some r) : m.Outlives r := by
  obtain rfl := h.slot_of_held h₀ hr
  have hinv := h.inv h₀
  obtain ⟨hentries, hthreads⟩ := h.stores_something h₀
  refine ⟨?_, hinv.owner?_ne_of_held hfree hr, fun s => ?_, fun t ht => ?_⟩
  · by_cases hm : m.cache.Made r.object.slot
    · exact hm
    · rw [Cache.entry_of_not_made hm] at hr
      cases hr
  · by_cases hs : s = r.object.slot
    · subst hs
      refine ⟨fun x hx _ => .inl ?_, fun _ _ => trivial, (hentries _).full⟩
      exact (Option.some.inj (hr.symm.trans hx)).symm
    · exact (hentries s).of_forall (Representation.precedes_of_ne hs)
  · obtain ⟨i, hi⟩ := List.getElem?_of_mem ht
    cases t with
    | finished a => trivial
    | busy req p next =>
      exact Point.stores_precedes (hthreads _ ht) (free_slot_iff.1 hfree i _ hi)

/-- A step fills no slot anew. -/
theorem Outlives.step (hr : m.Outlives r) (hinv : m.Inv conduct) {i : Nat}
    (hs : m.step i = some m') : m'.Outlives r := by
  obtain ⟨req, p, next, mv, hi, -, hmv, rfl⟩ := step_eq_some hs
  have hmem := List.mem_of_getElem? hi
  have hp := (hinv.sound _ _ hi).1
  have hst : p.Stores r.Precedes := hr.threads _ hmem
  have hbears : p.Bears r.Precedes := Point.bears_precedes (hr.filled _ hmem)
  refine ⟨hmv.effect.made hr.made, ?_,
    fun s => hmv.entry_stores hr.entries hp hst s, ?_⟩
  · refine forall_mem_set_wake hr.filled
      (fun t w ht => by rwa [Thread.owner?_roused]) ?_ _
    refine of_moved (P := fun t => t.owner? ≠ some r.object.slot) hmv.ne_blocked
      (fun q hq ho => ?_) fun program => ?_
    · rcases hmv.owner?_of_point? hq ho with ho' | ⟨hnew, -⟩
      · exact hr.filled _ hmem ho'
      · exact hnew hr.made
    · rw [Thread.owner?_ofProgram]
      exact nofun
  · refine forall_mem_set_wake hr.threads (fun t w ht => ht.roused w) ?_ _
    exact of_moved hmv.ne_blocked
      (fun q hq => hmv.stores Representation.precedes_renews hinv.orderly
        hr.entries hp hbears hst hq)
      Thread.stores_ofProgram

theorem Outlives.drift (hr : m.Outlives r) {c : Cache}
    (hc : m.cache.Drifts conduct c) : Outlives r { m with cache := c } := by
  refine ⟨(Cache.made_of_shelves hc.shelves _).2 hr.made, hr.filled,
    fun s => ?_, hr.threads⟩
  show (c.entry s).Stores _
  rw [(Cache.Keeps.of_shelves hc.shelves s).entry]
  exact hr.entries s

theorem Outlives.course (hr : m.Outlives r) (hinv : m.Inv conduct)
    (h : Course conduct m es m') : m'.Outlives r := by
  induction h with
  | refl => exact hr
  | step h hs ih => exact ih.step (h.keeps hinv) hs
  | drift h hc ih => exact ih.drift hc
  | stir h i ih =>
    exact ⟨ih.made,
      forall_mem_stir ih.filled (fun t w ht => by rwa [Thread.owner?_roused]) i,
      ih.entries, forall_mem_stir ih.threads (fun t w ht => ht.roused w) i⟩

/-- An object that is met again is what it was. -/
theorem Outlives.eq_of_object (hr : m.Outlives r)
    (hx : (m.cache.entry s).held = some x) (hslot : x.object.slot = s)
    (hobj : x.object = r.object) : x = r := by
  have hs : s = r.object.slot := by rw [← hslot, hobj]
  rcases (hr.entries s).held x hx hs with heq | hlt
  · exact heq
  · rw [hobj] at hlt
    exact absurd hlt (Nat.lt_irrefl _)

/-- What replaces an object is a new one. -/
theorem Outlives.nextObject_ne (hr : m.Outlives r)
    (hx : (m.cache.entry s).held = some x) (hslot : x.object.slot = s)
    (content : Content) : (Entry.nextObject x content).object ≠ r.object := by
  intro hobj
  have hs : s = r.object.slot := by
    rw [← hslot, ← hobj]
    rfl
  have hserial : x.object.serial + 1 = r.object.serial :=
    congrArg ObjectId.serial hobj
  rcases (hr.entries s).held x hx hs with rfl | hlt
  · omega
  · omega

end Machine

end ResourceHost
