import ResourceHost.Proofs.Host.Scenes
import ResourceHost.Proofs.Package.Balance

/-!
# What a host does with a package

To load a package takes a reference to the package itself and one for each of
its listings.  To unload it drops the references of the listings one by one, but
evicts the package whatever its references: the two ways are not alike.
-/

namespace ResourceHost

namespace Cache

variable {c c' : Cache}

/-! ### The first load of a resource -/

/-- What was absent and has been loaded holds what the source has for it. -/
theorem Calm.supplied_of_load (hc : c.Calm) {h : Handle}
    (hl : c.lookup? h = none)
    (hrun : (load h.type [h.name]).run c = (.ok (), c')) :
    ∃ k e r, c.kind? h.type = some k ∧ c'.lookup? h = some e ∧ e.held = some r ∧
      c.Supplies h k r.content := by
  obtain ⟨k, c₁, hkind, hrest⟩ := Program.run_orStop_eq_ok hrun
  rw [run_kindOf] at hkind
  cases hk : c.kind? h.type with
  | none =>
    rw [hk] at hkind
    cases hkind
  | some k' =>
    rw [hk] at hkind
    cases hkind
    obtain ⟨⟨⟩, c₂, hone, hdone⟩ := Program.run_orStop_eq_ok hrest
    cases hdone
    obtain ⟨o, c'', hrun', -, hcase⟩ :=
      hc.run_acquire_of_none hl (Option.isSome_iff_exists.2 ⟨k, hk⟩) k
    cases hone.symm.trans hrun'
    rcases hcase with ⟨⟨f, hf⟩, -⟩ | ⟨-, e, -, -, -, ha, r, hr, hs⟩
    · cases hf
    · exact ⟨k, e, r, rfl, ha.self, hr, hs⟩

/-! ### Where a manifest is found -/

theorem run_manifest_of_held (hc : c.Calm) {p : NameId} {e : Entry}
    {r : Representation} {man : Package.Manifest}
    (hl : c.lookup? (Package.handle p) = some e) (hs : e.state = .online)
    (hr : e.held = some r) (hman : r.content = .package man) :
    (Package.manifest p).run c = (.ok man, c) := by
  rw [hc.run_manifest, hl]
  simp [Entry.get, hs, hr, hman, Content.asPackage?]

theorem held_of_run_manifest (hc : c.Calm) {p : NameId} {man : Package.Manifest}
    (h : (Package.manifest p).run c = (.ok man, c)) :
    ∃ e r, c.lookup? (Package.handle p) = some e ∧ e.state = .online ∧
      e.held = some r ∧
      r.content = .package man := by
  obtain ⟨r, c₁, hget, hshape⟩ := Program.run_orStop_eq_ok h
  rw [hc.run_get] at hget
  cases hl : c.lookup? (Package.handle p) with
  | none =>
    rw [hl] at hget
    cases hget
  | some e =>
    rw [hl] at hget
    obtain ⟨hs, hr⟩ := Entry.online_of_get (congrArg Prod.fst hget)
    refine ⟨e, r, rfl, hs, hr, ?_⟩
    cases hcontent : r.content <;> rw [hcontent] at hshape <;> cases hshape
    rfl

/-- Whether missing resources are loaded on first use is no matter of what is
there. -/
theorem Calm.withAutoload (hc : c.Calm) (on : Bool) :
    ({ c with autoload := on } : Cache).Calm :=
  ⟨hc.made, hc.loaded⟩

theorem run_manifest_withAutoload (hc : c.Calm) {p : NameId}
    {man : Package.Manifest} (hm : (Package.manifest p).run c = (.ok man, c))
    (on : Bool) :
    (Package.manifest p).run { c with autoload := on } =
      (.ok man, { c with autoload := on }) := by
  obtain ⟨e, r, hl, hon, hr, hman⟩ := held_of_run_manifest hc hm
  exact run_manifest_of_held (hc.withAutoload on) hl hon hr hman

theorem Took.withAutoload {hs : List Handle} (h : Took hs c c') (on : Bool) :
    Took hs c { c' with autoload := on } :=
  ⟨h.calm.withAutoload on, h.kind?, h.gains⟩

end Cache

namespace Host

open Cache Console Package

variable {c c' : Cache} {p : NameId} {man : Manifest} {s s' : Scene}

/-! ### Unloading -/

/-- A package that is there can be unloaded.  The references of its listings are
dropped, and it is evicted itself. -/
theorem exists_of_unloadPackage (hc : c.Calm)
    (hman : (manifest p).run c = (.ok man, c)) :
    ∃ c', (unloadPackage p).run c = (.ok (), c') ∧ c'.Calm ∧
      c'.lookup? (handle p) = none ∧
      ∀ h, h ≠ handle p →
        c'.lookup? h =
          (c.lookup? h).bind (Entry.dropping (man.handles.count h)) := by
  obtain ⟨c₁, hgroups, hdropped⟩ := hc.exists_of_unloadGroups man.groups
  obtain ⟨c', hevict, hc', ha⟩ := hdropped.calm.run_unload (handle p)
  have hunload : (Package.unload p).run c = (.ok (), c₁) :=
    (Program.run_orStop_of_ok hman).trans hgroups
  refine ⟨c', (Program.run_orStop_of_ok hunload).trans hevict, hc', ha.self,
    fun h hne => ?_⟩
  rw [ha.others h hne]
  exact hdropped.lookup? h

/-- A package that is not there cannot be unloaded. -/
theorem unloadPackage_of_absent (hc : c.Calm)
    (hl : c.lookup? (handle p) = none) :
    (unloadPackage p).run c = (.error (.notLoaded (handle p)), c) := by
  have hman : (manifest p).run c = (.error (.notLoaded (handle p)), c) := by
    rw [hc.run_manifest, hl]
    rfl
  have hunload : (Package.unload p).run c =
      (.error (.notLoaded (handle p)), c) := by
    rw [Package.unload, Program.run_orStop, hman]
  rw [unloadPackage, Program.run_orStop, hunload]

/-! ### Loading -/

/-- What came of a load is put behind what waits for a flush already. -/
theorem play_schedule {s₁ : Scene} (h : play (schedule p) s = (.ok (), s₁)) :
    ∃ o, (Package.schedule p).run s.cache = (.ok o, s₁.cache) ∧
      s₁.host = { s.host with pending := s.host.pending.add p o } := by
  obtain ⟨o, s₂, hrun, hadd⟩ := play_orStop_eq_ok h
  obtain ⟨hrun, hhost⟩ := play_doing_eq hrun
  have hs₁ : s₁ = ⟨{ s₂.host with pending := s₂.host.pending.add p o },
    s₂.cache⟩ :=
    (congrArg Prod.snd hadd).symm
  subst hs₁
  rw [← hhost]
  exact ⟨o, hrun, rfl⟩

/-- A package has been loaded, and in the background all that it lists. -/
theorem took_of_load {c₁ : Cache} (hc : c.Calm)
    (hload : (loadManifest p).run c = (.ok (), c₁))
    (hschedule : (Package.schedule p).run c₁ = (.ok (.ok ()), c')) :
    ∃ man, (manifest p).run c' = (.ok man, c') ∧ Took [handle p] c c₁ ∧
      Took man.handles c₁ c' := by
  have htook₁ : Took [handle p] c c₁ := .of_load hc hload
  obtain ⟨man, hman, hgroups⟩ := exists_of_schedule htook₁.calm hschedule
  have htook₂ : Took man.handles c₁ c' := .of_loadGroups htook₁.calm hgroups
  exact ⟨man, htook₂.run_manifest htook₁.calm hman, htook₁, htook₂⟩

end Host

end ResourceHost
