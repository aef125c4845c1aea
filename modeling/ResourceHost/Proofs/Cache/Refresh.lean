import ResourceHost.Proofs.Cache.Calm
import ResourceHost.Proofs.Cache.Settings

/-!
# Reloading from the source

When the resource of an entry is reloaded, the entry is left as it was, or is
online with what its kind made of the bytes that the source has; its references
stay either way.  A sweep over all entries is such steps one after another, so
it keeps whatever each of them keeps.
-/

namespace ResourceHost

/-! ### One entry -/

/-- What may come of an entry whose resource is reloaded with some bytes. -/
inductive Entry.Refreshed (h : Handle) (kind? : Option Kind)
    (bytes : List UInt8) (e : Entry) : Entry → Prop where
  | kept : Refreshed h kind? bytes e e
  | renewed {k : Kind} {old : Content} {r : Representation}
      (hk : kind? = some k) (hr : k.reload h old bytes = .ok r.content) :
    Refreshed h kind? bytes e { e with state := .online, held := some r }

namespace Entry

variable {h : Handle} {kind? : Option Kind} {bytes : List UInt8} {e e' : Entry}

theorem Refreshed.refCount (hr : Refreshed h kind? bytes e e') :
    e'.refCount = e.refCount := by
  cases hr <;> rfl

theorem Refreshed.online (hr : Refreshed h kind? bytes e e')
    (he : e.state = .online) : e'.state = .online := by
  cases hr with
  | kept => exact he
  | renewed hk hr => rfl

theorem Refreshed.loaded (hr : Refreshed h kind? bytes e e') (he : e.Loaded) :
    e'.Loaded := by
  cases hr with
  | kept => exact he
  | renewed hk hr => exact ⟨.inl rfl, rfl, he.failure⟩

theorem replace_refreshed {k : Kind} (hk : kind? = some k)
    (old : Representation) (e : Entry) :
    Refreshed h kind? bytes e (e.replace h k old bytes).entry := by
  unfold replace
  cases hr : k.reload h old.content bytes with
  | ok content => exact .renewed (r := nextObject old content) hk hr
  | error f => exact .kept

theorem reload_refreshed (e : Entry) :
    Refreshed h kind? bytes e (e.reload h kind? bytes).entry := by
  unfold reload
  split
  · exact .kept
  · split
    · exact replace_refreshed rfl _ e
    · exact replace_refreshed rfl _ e
    · exact .kept

theorem evicts_reload (e : Entry) :
    (e.reload h kind? bytes).evicts = false := by
  have hreplace : ∀ (k : Kind) (old : Representation),
      (e.replace h k old bytes).evicts = false := by
    intro k old
    unfold replace
    dsimp only
    split <;> rfl
  unfold reload
  split
  · rfl
  · split
    · exact hreplace _ _
    · exact hreplace _ _
    · rfl

end Entry

/-! ### One handle -/

namespace Cache

variable {c c' : Cache} {h : Handle}

/-- The entry of one handle has been reloaded with what the source has, and no
other entry has changed. -/
structure Refreshes (c : Cache) (h : Handle) (c' : Cache) : Prop where
  calm : c'.Calm
  exists_entry : ∃ e e' bytes, c.lookup? h = some e ∧
    c.source.read h = .ok bytes ∧
    e.Refreshed h (c.kind? h.type) bytes e' ∧ c'.lookup? h = some e'
  others : ∀ h', h' ≠ h → c'.lookup? h' = c.lookup? h'

theorem run_readSource (c : Cache) (h : Handle) :
    (readSource h).run c = ((c.source.read h).mapError (.noBytes h), c) := by
  rw [readSource, Program.run_bind]
  cases hr : c.source.read h <;>
    simp only [Program.request, Program.run, Request.run, hr] <;> rfl

theorem Calm.refreshes_reload (hc : c.Calm) {e : Entry}
    (hl : c.lookup? h = some e) {bytes : List UInt8}
    (hread : c.source.read h = .ok bytes) :
    c.Refreshes h ((reload h bytes).run c).2 := by
  obtain ⟨c', hvisit, hc', ha⟩ := hc.visit_of_some hl (.reload bytes)
  have hrun : ((reload h bytes).run c).2 = c' := congrArg Prod.snd hvisit
  have hev : (Visit.inside h (c.kind? h.type) e (.reload bytes)).evicts =
      false :=
    e.evicts_reload
  have hself := ha.self
  rw [hev] at hself
  rw [hrun]
  exact ⟨hc', ⟨e, _, bytes, hl, hread, e.reload_refreshed, hself⟩, ha.others⟩

/-- To reload a handle from the source refreshes its entry, or changes
nothing. -/
theorem Calm.run_reloadFromSource (hc : c.Calm) (h : Handle) :
    ((reloadFromSource h.type [h.name]).run c).2 = c ∨
      c.Refreshes h ((reloadFromSource h.type [h.name]).run c).2 := by
  rw [reloadFromSource, Program.run_orStop, run_readSource]
  cases hread : c.source.read h with
  | error why => exact .inl rfl
  | ok bytes =>
    dsimp only [Except.mapError]
    have hrest : (((reload h bytes).orStop fun _ =>
          reloadFromSource h.type []).run c).2 =
        ((reload h bytes).run c).2 := by
      rw [Program.run_orStop]
      cases ((reload h bytes).run c).1 <;> rfl
    rw [hrest]
    cases hl : c.lookup? h with
    | none =>
      exact .inl (congrArg Prod.snd (hc.visit_of_none hl (.reload bytes)))
    | some e => exact .inr (hc.refreshes_reload hl hread)

/-! ### Every entry -/

variable {P : Cache → Prop}

/-- What every refresh keeps, the sweep over some handles keeps. -/
theorem reloadEach_keeps (hcalm : ∀ {c}, P c → c.Calm)
    (hstep : ∀ {c c' h}, P c → c.SameSettings c' → c.Refreshes h c' → P c')
    (hs : List Handle) (report : ReloadReport) (hp : P c) :
    P ((reloadEach hs report).run c).2 := by
  induction hs generalizing c report with
  | nil => exact hp
  | cons h hs ih =>
    rw [reloadEach, Program.run_bind, (hcalm hp).run_state]
    split
    · have hafter : P ((reloadFromSource h.type [h.name]).run c).2 := by
        rcases (hcalm hp).run_reloadFromSource h with hsame | hrefresh
        · rw [hsame]
          exact hp
        · exact hstep hp ((reloadFromSource_modest _ _).sameSettings c) hrefresh
      rw [Program.run_bind]
      cases ((reloadFromSource h.type [h.name]).run c).1 with
      | ok u => exact ih _ hafter
      | error f => exact ih _ hafter
    · exact ih report hp

theorem reloadAll_keeps (hcalm : ∀ {c}, P c → c.Calm)
    (hstep : ∀ {c c' h}, P c → c.SameSettings c' → c.Refreshes h c' → P c')
    (hp : P c) : P (reloadAll.run c).2 :=
  reloadEach_keeps hcalm hstep (Handle.sort c.handles) {} hp

end Cache

end ResourceHost
