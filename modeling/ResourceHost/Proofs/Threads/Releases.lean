import ResourceHost.Proofs.Threads.References

/-!
# Releases that are not overtaken

A release finds its slot first and locks it later.  While what it has found
stays listed, the release goes on to count one reference less of what the table
lists, and its answer is the count.
-/

namespace ResourceHost

/-- What a release has found of a handle is what is listed. -/
def Point.Finds (c : Cache) (h : Handle) {r : Request} : Point r → Prop
  | .start | .begun => True
  | .consult s _ _ | .consulting s _ _ | .enter s _ | .parked s _ =>
    c.find? h = some s
  | .inside hold _ => c.find? h = some hold.slot
  | _ => False

theorem Point.Finds.congr {c c' : Cache} {h : Handle} {r : Request}
    {p : Point r} (hf : p.Finds c h)
    (hc : ∀ s, c.find? h = some s → c'.find? h = some s) : p.Finds c' h := by
  cases p with
  | start => trivial
  | begun => trivial
  | consult s errand locked => exact hc s hf
  | consulting s errand locked => exact hc s hf
  | enter s errand => exact hc s hf
  | parked s errand => exact hc s hf
  | inside hold calls => exact hc hold.slot hf
  | _ => exact hf

section

variable {conduct : Conduct} {c : Cache} {h : Handle}

theorem Hold.Since.sec_of_release {hold : Hold (.visit h .release)}
    {found : Entry} {calls : List Call}
    (hs : hold.Since conduct c found calls) : hold.sec = found.release := by
  obtain ⟨slot, errand, sec⟩ := hold
  cases errand with
  | visit kind? => exact (Option.some.inj hs.does).symm

theorem Hold.deed?_of_release {hold : Hold (.visit h .release)} :
    hold.deed? = some .released := by
  obtain ⟨slot, errand, sec⟩ := hold
  cases errand with
  | visit kind? => rfl

/-- A release goes on to what it has found, or counts one reference less of it
and answers with the count; if it finds nothing, nothing is listed. -/
theorem Moves.finds {free : Free} {p : Point (.visit h .release)}
    {mv : Move (.visit h .release)} (hmv : Moves free c p mv)
    (hp : p.Sound conduct c) (hf : p.Finds c h) :
    (∃ q, mv = .go q c ∧ q.Finds c h ∧ p.deed? c = none) ∨
      (c.find? h = none ∧ mv.cacheAfter c = c ∧ p.deed? c = none) ∨
      ∃ (s : SlotId) (n : Nat) (c' : Cache), mv = .reply (.ok n) none c' ∧
        c.find? h = some s ∧ c'.find? h = some s ∧ (c'.entry s).refCount = n ∧
        p.deed? c = some (s, .released) := by
  cases hmv with
  | turn hl hfree => exact .inl ⟨_, rfl, trivial, rfl⟩
  | answer ho hr => cases hr
  | absent ho hs => exact .inr (.inl ⟨hs, rfl, deed?_of_opening ho rfl⟩)
  | find ho hs hv => exact .inl ⟨_, rfl, hs, deed?_of_opening ho rfl⟩
  | findAndAsk ho hs hv => exact .inl ⟨_, rfl, hs, deed?_of_opening ho rfl⟩
  | ask hfree => exact .inl ⟨_, rfl, hf, rfl⟩
  | told => exact .inl ⟨_, rfl, hf, rfl⟩
  | toldAndWork hs => exact .inl ⟨_, rfl, hf, rfl⟩
  | toldAndStart hs => exact .inl ⟨_, rfl, trivial, rfl⟩
  | park hfree hw => exact .inl ⟨_, rfl, hf, rfl⟩
  | hold hfree hc => exact .inl ⟨_, rfl, hf, rfl⟩
  | work hfree hw hc hs => exact .inl ⟨_, rfl, hf, rfl⟩
  | restart hfree hw hc hs => exact .inl ⟨_, rfl, trivial, rfl⟩
  | call =>
    -- A release makes no callback.
    obtain ⟨found, hsince⟩ := hp
    have hmem := hsince.tail.1
    rw [hsince.sec_of_release] at hmem
    cases hmem
  | wait hev =>
    obtain ⟨found, hsince⟩ := hp
    rw [hsince.sec_of_release] at hev
    cases hev
  | @leave _ hold hev =>
    obtain ⟨found, hsince⟩ := hp
    have hsec := hsince.sec_of_release
    have hwakes : hold.wakes = false := by
      obtain ⟨slot, errand, sec⟩ := hold
      cases errand with
      | visit kind? => exact hev
    refine .inr (.inr ⟨hold.slot, found.refCount - 1,
      c.setEntry hold.slot hold.sec.entry, ?_, hf, ?_, ?_, ?_⟩)
    · rw [Moves.leave_of_not_wakes hwakes, hsec]
      rfl
    · rw [Cache.find?_setEntry]
      exact hf
    · rw [Cache.entry_setEntry_self hsince.made, hsec]
      rfl
    · simp only [Point.deed?, hev, Bool.false_eq_true, if_false,
        Hold.deed?_of_release]
      rfl
  | _ => exact absurd hf id

end

end ResourceHost
