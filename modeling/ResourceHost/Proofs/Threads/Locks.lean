import ResourceHost.Proofs.Threads.Effects

/-!
# Locks, owners and the order of a cache

The lock of a slot is taken only if it is free, and let go only when the slot
is settled; only the thread that makes a slot owns it.  What is listed stays
made, and what is made stays registered.
-/

namespace ResourceHost

/-! ### Locks and owners -/

/-- Has just made a slot. -/
def Point.Begins {r : Request} : Point r → Prop
  | .fetch _ => True
  | .enter _ .introduce => True
  | _ => False

namespace Moves

variable {conduct : Conduct} {r : Request} {free : Free} {c : Cache}
  {p q : Point r} {mv : Move r} {s : SlotId}

theorem slot?_of_opening (ho : p.Opening) : p.slot? = none := by
  rcases ho with ⟨rfl, -⟩ | rfl
  · rfl
  · rfl

theorem owner?_of_opening (ho : p.Opening) : p.owner? = none := by
  rcases ho with ⟨rfl, -⟩ | rfl
  · rfl
  · rfl

theorem hold?_of_opening (ho : p.Opening) : p.hold? = none := by
  rcases ho with ⟨rfl, -⟩ | rfl
  · rfl
  · rfl

/-- The lock of a slot is taken only if it is free. -/
theorem slot?_of_point? (h : Moves free c p mv) (hq : mv.point? = some q)
    (hs : q.slot? = some s) : p.slot? = some s ∨ free.slot s = true := by
  -- `hold` and `work` take the lock; whoever has it otherwise had it before.
  cases h with
  | hold hf hc =>
    cases hq
    cases hs
    exact .inr hf
  | work hf hw hc hsec =>
    cases hq
    cases hs
    exact .inr hf
  | @ask _ s' errand locked hf =>
    cases hq
    cases locked with
    | true => exact .inl hs
    | false => cases hs
  | toldAndWork hsec =>
    cases hq
    exact .inl hs
  | call =>
    cases hq
    exact .inl hs
  | back =>
    cases hq
    exact .inl hs
  | wait hev =>
    cases hq
    exact .inl hs
  | take hf =>
    cases hq
    exact .inl hs
  | leave hev =>
    rw [point?_leave _ _ _ hq] at hs
    cases hs
  | evict =>
    rw [point?_leave _ _ _ hq] at hs
    cases hs
  | _ => cases hq <;> cases hs

/-- Only a thread that makes a slot comes to own it. -/
theorem owner?_of_point? (h : Moves free c p mv) (hq : mv.point? = some q)
    (hs : q.owner? = some s) : p.owner? = some s ∨ ¬ c.Made s ∧ q.Begins := by
  -- `load` and `insert` make the slot; every other move goes on with its
  -- errand.
  cases h with
  | load ho hf =>
    cases hq
    cases hs
    exact .inr ⟨c.not_made_nextSlot _, trivial⟩
  | insert ho hf =>
    cases hq
    cases hs
    exact .inr ⟨c.not_made_nextSlot _, trivial⟩
  | told =>
    cases hq
    rw [Point.owner?, Errand.owns_informed] at hs
    exact .inl hs
  | toldAndWork hsec =>
    cases hq
    simp only [Point.owner?, Errand.owns_informed] at hs
    exact .inl hs
  | leave hev =>
    rw [point?_leave _ _ _ hq] at hs
    cases hs
  | evict =>
    rw [point?_leave _ _ _ hq] at hs
    cases hs
  | ask hf =>
    cases hq
    exact .inl hs
  | unread hr =>
    cases hq
    exact .inl hs
  | read hr =>
    cases hq
    exact .inl hs
  | loaded hk =>
    cases hq
    exact .inl hs
  | rejected hk =>
    cases hq
    exact .inl hs
  | park hf hw =>
    cases hq
    exact .inl hs
  | hold hf hc =>
    cases hq
    exact .inl hs
  | work hf hw hc hsec =>
    cases hq
    exact .inl hs
  | call =>
    cases hq
    exact .inl hs
  | back =>
    cases hq
    exact .inl hs
  | wait hev =>
    cases hq
    exact .inl hs
  | take hf =>
    cases hq
    exact .inl hs
  | _ => cases hq <;> cases hs

/-- A section is begun on a slot under its lock, on the entry that is there. -/
theorem hold?_of_point? (h : Moves free c p mv) (hp : p.Sound conduct c)
    (hq : mv.point? = some q) (hs : q.hold? = some s) :
    p.hold? = some s ∨ ∃ (errand : Errand r) (sec : Section r.Reply),
      q = .inside ⟨s, errand, sec⟩ sec.calls ∧
      errand.section? s (c.entry s) = some sec ∧
        r.handle? = some s.handle ∧ (errand.owns = true → c.Awaits s) := by
  cases h with
  | @toldAndWork _ s' errand sec hsec =>
    cases hq
    cases hs
    obtain ⟨ha, -, ho, -⟩ := hp
    refine .inr ⟨_, _, rfl, hsec, ha, fun howns => ?_⟩
    rw [Errand.owns_informed, ho] at howns
    cases howns
  | work hf hw hc hsec =>
    cases hq
    cases hs
    obtain ⟨ha, -, ho, -⟩ := hp
    exact .inr ⟨_, _, rfl, hsec, ha, ho⟩
  | call =>
    cases hq
    exact .inl hs
  | back =>
    cases hq
    exact .inl hs
  | wait hev =>
    cases hq
    exact .inl hs
  | take hf =>
    cases hq
    exact .inl hs
  | leave hev =>
    rw [point?_leave _ _ _ hq] at hs
    cases hs
  | evict =>
    rw [point?_leave _ _ _ hq] at hs
    cases hs
  | _ => cases hq <;> cases hs

/-- A slot whose lock is let go is settled. -/
theorem settled_of_let_go (h : Moves free c p mv) (hp : p.Sound conduct c)
    (hs : p.slot? = some s) (hq : ∀ q, mv.point? = some q → q.slot? ≠ some s) :
    ((mv.cacheAfter c).entry s).Settled ((mv.cacheAfter c).Listed s) := by
  -- A lock is let go at the end of a section, or by who has to start over.
  cases h with
  | toldAndStart hsec =>
    cases hs
    obtain ⟨-, -, -, he⟩ := hp
    exact he rfl
  | leave hev =>
    cases hs
    obtain ⟨found, hsince⟩ := hp
    rw [cacheAfter_leave, Cache.entry_setEntry_self hsince.made]
    refine hsince.settled_after.mono ?_
    rw [Cache.listed_setEntry]
    exact ⟨fun hl => hl.1, fun hl => ⟨hl, hev⟩⟩
  | evict =>
    cases hs
    obtain ⟨hev, found, hsince⟩ := hp
    rw [cacheAfter_leave,
      Cache.entry_setEntry_self (Cache.made_evict.2 hsince.made)]
    refine hsince.settled_after.mono ?_
    rw [Cache.listed_setEntry, Cache.listed_evict]
    constructor
    · rintro ⟨-, hne⟩
      rw [hev] at hne
      cases hne
    · rintro ⟨-, hne⟩
      exact absurd rfl hne
  | @ask _ s' errand locked hf =>
    cases locked with
    | true => exact absurd hs (hq (.consulting _ _ _) rfl)
    | false => cases hs
  | toldAndWork hsec => exact absurd hs (hq (.inside _ _) rfl)
  | call => exact absurd hs (hq (.calling _ _ _) rfl)
  | back => exact absurd hs (hq (.inside _ _) rfl)
  | wait hev => exact absurd hs (hq (.evict _) rfl)
  | take hf => exact absurd hs (hq (.evicting _) rfl)
  | answer ho hr => rw [slot?_of_opening ho] at hs; cases hs
  | look ho => rw [slot?_of_opening ho] at hs; cases hs
  | join ho hf => rw [slot?_of_opening ho] at hs; cases hs
  | load ho hf => rw [slot?_of_opening ho] at hs; cases hs
  | refuse ho hf => rw [slot?_of_opening ho] at hs; cases hs
  | insert ho hf => rw [slot?_of_opening ho] at hs; cases hs
  | absent ho hf => rw [slot?_of_opening ho] at hs; cases hs
  | find ho hf hv => rw [slot?_of_opening ho] at hs; cases hs
  | findAndAsk ho hf hv => rw [slot?_of_opening ho] at hs; cases hs
  | _ => cases hs

/-! ### The cache and what is in hand -/

/-- Only a registration changes what the registry gives out. -/
theorem kinds_cacheAfter (h : Moves free c p mv) :
    (mv.cacheAfter c).kinds = c.kinds ∨
      r.handle? = none ∧ mv.cacheAfter c = (r.run c).2 := by
  cases h with
  | answer ho hr => exact .inr ⟨hr, rfl⟩
  | leave hev =>
    rw [cacheAfter_leave]
    exact .inl rfl
  | @evict _ hold =>
    rw [cacheAfter_leave]
    left
    show (c.evict hold.slot).kinds = c.kinds
    unfold Cache.evict
    dsimp only
    split
    · rfl
    · rfl
  | _ => exact .inl rfl

/-- What a request makes of a type that the registry knows, and what it
registers. -/
theorem kind?_run {hand : Hand} (hr : r.Honest conduct hand)
    (hn : r.handle? = none) (t : TypeId) :
    (r.run c).2.kind? t = c.kind? t ∨
      c.kind? t = none ∧ ∃ k, (r.run c).2.kind? t = some k ∧ conduct t k := by
  cases r with
  | register t' k =>
    rcases Cache.kind?_register (c := c) t' k t with heq | ⟨hnone, rfl, heq⟩
    · exact .inl heq
    · exact .inr ⟨hnone, k, heq, hr⟩
  | acquire h k => cases hn
  | add h k content => cases hn
  | visit h v => cases hn
  | stateOf s => cases hn
  | _ => exact .inl rfl

theorem kind?_cacheAfter {hand : Hand} (h : Moves free c p mv)
    (hr : r.Honest conduct hand) (t : TypeId) :
    (mv.cacheAfter c).kind? t = c.kind? t ∨
      c.kind? t = none ∧ ∃ k, (mv.cacheAfter c).kind? t = some k ∧
      conduct t k := by
  rcases h.kinds_cacheAfter with hk | ⟨hn, hc⟩
  · rw [Cache.kind?, hk]
    exact .inl rfl
  · rw [hc]
    exact kind?_run hr hn t

theorem extends_cacheAfter {hand : Hand} (h : Moves free c p mv)
    (hr : r.Honest conduct hand) : c.Extends (mv.cacheAfter c) := by
  refine ⟨fun s hs => h.effect.made hs, fun t k ht => ?_⟩
  obtain ⟨k', hk', heq⟩ := ht
  rcases h.kind?_cacheAfter hr t with hk | ⟨hnone, -⟩
  · exact ⟨k', hk.trans hk', heq⟩
  · rw [hnone] at hk'
    cases hk'

/-- A slot that is listed after a move was listed, or has just been made. -/
theorem made_of_listed (h : Moves free c p mv) (hc : ∀ s, c.Listed s → c.Made s)
    (hs : (mv.cacheAfter c).Listed s) : (mv.cacheAfter c).Made s := by
  obtain ⟨d, heff⟩ : ∃ d, Effect c p mv d := ⟨_, h.effect⟩
  cases heff with
  | still hsh =>
    exact h.effect.made (hc s ((Cache.Keeps.of_shelves hsh s).listed.1 hs))
  | @opens h' q d hr hf hq hl hd =>
    by_cases hh : s.handle = h'
    · subst hh
      have heq : s = c.nextSlot s.handle :=
        hs.unique (c.listed_openSlot_nextSlot _) rfl
      exact c.made_openSlot.2 (.inr heq)
    · have hl : c.Listed s := by
        rw [Cache.Listed, ← c.find?_openSlot_of_ne hh]
        exact hs
      exact c.made_openSlot.2 (.inl (hc s hl))
  | calls => exact h.effect.made (hc s (Cache.listed_setEntry.1 hs))
  | leaves hev =>
    rw [cacheAfter_leave, Cache.listed_setEntry] at hs
    exact h.effect.made (hc s hs)
  | evicts =>
    rw [cacheAfter_leave, Cache.listed_setEntry, Cache.listed_evict] at hs
    exact h.effect.made (hc s hs.1)

theorem orderly {hand : Hand} (h : Moves free c p mv) (hc : c.Orderly conduct)
    (hh : hand.Holds conduct c) (hr : r.Honest conduct hand) :
    (mv.cacheAfter c).Orderly conduct := by
  have hext := h.extends_cacheAfter hr
  refine ⟨fun s hs => h.made_of_listed hc.made hs, fun s hs => ?_,
    fun t k hk => ?_⟩
  · rcases h.effect.made_or_opened hs with hs | ⟨hopens, -, -⟩
    · exact (hc.typed s hs).mono hext.knows
    · -- Whoever makes a slot was told that the type is registered.
      obtain ⟨k, rfl | ⟨content, rfl⟩⟩ := hopens
      · exact (hext.knows _ _ (hh.has hr).1).registered
      · exact (hext.knows _ _ (hh.has hr).1).registered
  · rcases h.kind?_cacheAfter hr t with heq | ⟨-, k', hk', hcond⟩
    · exact hc.conduct t k (heq ▸ hk)
    · rw [hk'] at hk
      cases hk
      exact hcond

end Moves

end ResourceHost
