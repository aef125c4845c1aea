import ResourceHost.Proofs.Package.Balance

/-!
# After a load and a flush

A flush without a failure says that every load scheduled for the package went
well.  Everything that the manifest lists is then there: online, unless it was
offline before, for a resource that is loaded only gains a reference.  So a
package is loaded then exactly if nothing that it lists was offline.
-/

namespace ResourceHost

/-! ### What a flush says of each load -/

namespace Package

theorem firstFailure?_eq_none_iff {outcomes : List (Except Failure Unit)} :
    firstFailure? outcomes = none ↔ ∀ o ∈ outcomes, o = .ok () := by
  induction outcomes with
  | nil => simp [firstFailure?]
  | cons o rest ih =>
    cases o with
    | ok u => simp [firstFailure?, ih]
    | error f => simp [firstFailure?]

/-- A flush without a failure finds that the load added last went well. -/
theorem Pending.ok_of_flush_add {w : Pending (Except Failure Unit)} {p : NameId}
    {o : Except Failure Unit} (h : ((w.add p o).flush p).1 = .ok ()) :
    o = .ok () := by
  have hnone : firstFailure? ((w.add p o).waiting p) = none := by
    cases hf : firstFailure? ((w.add p o).waiting p) with
    | none => rfl
    | some f =>
      have hreport : ((w.add p o).flush p).1 =
          .error (.during (.loadPackage p) f) := by
        simp [flush, take, report, hf]
      rw [hreport] at h
      cases h
  rw [waiting_add_self] at hnone
  exact firstFailure?_eq_none_iff.1 hnone o (by simp)

end Package

/-! ### What is listed after a load -/

namespace Cache

variable {c c' : Cache} {hs : List Handle} {h : Handle}

theorem Calm.run_canGetAll (hc : c.Calm) (t : TypeId) (ns : List NameId) :
    (canGetAll t ns).run c =
      ((ns.map (Handle.mk t)).all fun h => ((state h).run c).1 = .online,
        c) := by
  induction ns with
  | nil => rfl
  | cons n ns ih =>
    rw [canGetAll, Program.run_bind, canGet, Program.run_bind, hc.run_state,
      Program.run_pure]
    by_cases hs : (c.lookup? ⟨t, n⟩).elim .unloaded Entry.state = .online
    · simp [hs, ih, hc.run_state]
    · simp [hs, hc.run_state]

theorem Calm.run_groupsLoaded (hc : c.Calm) (gs : List Package.Group) :
    (Package.groupsLoaded gs).run c =
      ((Package.Manifest.handles ⟨gs⟩).all fun h =>
        ((state h).run c).1 = .online, c) := by
  induction gs with
  | nil => rfl
  | cons g gs ih =>
    have hsplit : Package.Manifest.handles ⟨g :: gs⟩ =
        g.names.map (Handle.mk g.type) ++ Package.Manifest.handles ⟨gs⟩ := rfl
    rw [Package.groupsLoaded, Program.run_bind, hc.run_canGetAll, hsplit,
      List.all_append]
    cases (g.names.map (Handle.mk g.type)).all fun h =>
      ((state h).run c).1 = .online with
    | false => rfl
    | true => simpa using ih

/-- A package is loaded if everything that its manifest lists is online. -/
theorem Calm.run_isLoaded (hc : c.Calm) {p : NameId} {man : Package.Manifest}
    (hm : (Package.manifest p).run c = (.ok man, c)) :
    (Package.isLoaded p).run c =
      (man.handles.all fun h => ((state h).run c).1 = .online, c) := by
  rw [Package.isLoaded, Program.run_bind, hm]
  exact hc.run_groupsLoaded man.groups

/-- What has been taken is there, and offline only if it was offline before. -/
theorem Took.exists_of_mem (ht : Took hs c c') (hc : c.Calm) (hh : h ∈ hs) :
    ∃ e, c'.lookup? h = some e ∧ e.Loaded ∧
      (e.state = .offline ↔ ((state h).run c).1 = .offline) := by
  have hgains := ht.gains h
  have hcount : 0 < hs.count h := List.count_pos_iff.2 hh
  rw [hc.run_state]
  cases hl : c.lookup? h with
  | some e =>
    rw [hl] at hgains
    exact ⟨_, hgains.eq_joined, (hc.loaded h e hl).1.counting _, Iff.rfl⟩
  | none =>
    rw [hl] at hgains
    generalize hs.count h = n at hgains hcount
    generalize c'.lookup? h = b at hgains
    cases hgains with
    | absent => exact absurd hcount (Nat.lt_irrefl 0)
    | @loaded n e hd hon hn =>
      refine ⟨e, rfl, hd, iff_of_false ?_ nofun⟩
      rw [hon]
      exact nofun

end Cache

namespace Package

open Cache

variable {α : Type} {conduct : Conduct} {m m₀ : Machine α} {es : List Event}

/-- From any calm moment of any run, and whatever other loads of the package
wait: where a load is scheduled and the flush after it finds no failure, what
the manifest lists is online and can be had, but for what was offline before,
which stays offline.  The package is then loaded exactly if nothing was. -/
theorem loaded_of_flush (h₀ : m₀.Starts conduct)
    (hr : Machine.Course conduct m₀ es m)
    (hrest : ∀ t ∈ m.threads, t.atRest = true) {p : NameId}
    {o : Except Failure Unit} {c₁ : Cache}
    (hload : (schedule p).run m.cache = (.ok o, c₁))
    {w : Pending (Except Failure Unit)}
    (hflush : ((w.add p o).flush p).1 = .ok ()) :
    ∃ man : Manifest, (manifest p).run m.cache = (.ok man, m.cache) ∧
      (∀ h ∈ man.handles, ((state h).run m.cache).1 ≠ .offline →
        ((state h).run c₁).1 = .online ∧ ∃ r, ((get h).run c₁).1 = .ok r) ∧
      (∀ h ∈ man.handles, ((state h).run m.cache).1 = .offline →
        ((state h).run c₁).1 = .offline) ∧
      (((isLoaded p).run c₁).1 = true ↔
        ∀ h ∈ man.handles, ((state h).run m.cache).1 ≠ .offline) := by
  have hc : m.cache.Calm := hr.calm h₀ hrest
  obtain ⟨man, hman, hgroups⟩ := exists_of_schedule hc hload
  rw [Pending.ok_of_flush_add hflush] at hgroups
  have htook : Took man.handles m.cache c₁ := .of_loadGroups hc hgroups
  have hc₁ : c₁.Calm := htook.calm
  have honline : ∀ h ∈ man.handles, ((state h).run m.cache).1 ≠ .offline →
      ((state h).run c₁).1 = .online ∧ ∃ r, ((get h).run c₁).1 = .ok r := by
    intro h hh hbefore
    obtain ⟨e, hl, hd, hiff⟩ := htook.exists_of_mem hc hh
    have hon : e.state = .online := hd.state.resolve_right (mt hiff.1 hbefore)
    rw [hc₁.run_state, hc₁.run_get, hl]
    exact ⟨hon, hd.get_of_online hon h⟩
  have hoffline : ∀ h ∈ man.handles, ((state h).run m.cache).1 = .offline →
      ((state h).run c₁).1 = .offline := by
    intro h hh hbefore
    obtain ⟨e, hl, hd, hiff⟩ := htook.exists_of_mem hc hh
    rw [hc₁.run_state, hl]
    exact hiff.2 hbefore
  refine ⟨man, hman, honline, hoffline, ?_⟩
  rw [hc₁.run_isLoaded (htook.run_manifest hc hman)]
  simp only [List.all_eq_true, decide_eq_true_eq]
  constructor
  · intro hall h hh hbefore
    have hon := hall h hh
    rw [hoffline h hh hbefore] at hon
    cases hon
  · intro hbefore h hh
    exact (honline h hh (hbefore h hh)).1

/-- What is theirs is online before the package is loaded, and the package is
loaded after the flush. -/
theorem loaded_of_flush_of_doubled :
    (packageCallers [addDoubled]).Starts packageConduct ∧
      ∃ (es : List Event) (m : Machine (Except Failure Unit)) (c₁ : Cache),
        Machine.Course packageConduct (packageCallers [addDoubled]) es m ∧
          (∀ t ∈ m.threads, t.atRest = true) ∧
          (schedule crate).run m.cache = (.ok (.ok ()), c₁) ∧
          ((Pending.add {} crate (.ok ())).flush crate).1 = .ok () ∧
          ((isLoaded crate).run c₁).1 = true := by
  have hrun := Machine.exists_course packageConduct
    (packageCallers [addDoubled]) (List.replicate 20 0)
    (P := fun _ m => (∀ t ∈ m.threads, t.atRest = true) ∧
      loadsWell crate m.cache ∧
      ((manifest crate).run m.cache).1.toOption = some doubled ∧
      ∀ h ∈ doubled.handles, ((state h).run m.cache).1 ≠ .offline)
    (by decide +kernel)
  obtain ⟨es, m, hr, hend⟩ := hrun
  obtain ⟨hrest, hwell, hfound, honline⟩ := of_decide_eq_true hend
  have hload := run_of_loadsWell hwell
  have hflush : ((Pending.add {} crate (.ok ())).flush crate).1 = .ok () := rfl
  obtain ⟨man, hman, -, -, hiff⟩ :=
    loaded_of_flush starts_addDoubled hr hrest hload hflush
  rw [hman] at hfound
  cases hfound
  exact ⟨starts_addDoubled, es, m, _, hr, hrest, hload, hflush, hiff.2 honline⟩

/-- Takes what is theirs offline once the package is there. -/
def offlineTheirs : Program (Except Failure Unit) :=
  addDoubled.orStop fun _ => offline Machine.theirs

/-- What is theirs is offline before the package is loaded.  The load and the
flush go well, and the package is not loaded. -/
theorem not_loaded_of_offline :
    (packageCallers [offlineTheirs]).Starts packageConduct ∧
      ∃ (es : List Event) (m : Machine (Except Failure Unit)) (c₁ : Cache),
        Machine.Course packageConduct (packageCallers [offlineTheirs]) es m ∧
          (∀ t ∈ m.threads, t.atRest = true) ∧
          (schedule crate).run m.cache = (.ok (.ok ()), c₁) ∧
          ((Pending.add {} crate (.ok ())).flush crate).1 = .ok () ∧
          ((isLoaded crate).run c₁).1 = false := by
  have h₀ : (packageCallers [offlineTheirs]).Starts packageConduct := by
    refine starts_packageCallers fun p hp => ?_
    rw [List.mem_singleton.1 hp]
    exact (supply_honest _).orStop fun _ _ => offline_honest _
  have hrun := Machine.exists_course packageConduct
    (packageCallers [offlineTheirs]) (List.replicate 28 0)
    (P := fun _ m => (∀ t ∈ m.threads, t.atRest = true) ∧
      loadsWell crate m.cache ∧
      ((isLoaded crate).run ((schedule crate).run m.cache).2).1 = false)
    (by decide +kernel)
  obtain ⟨es, m, hr, hend⟩ := hrun
  obtain ⟨hrest, hwell, hnot⟩ := of_decide_eq_true hend
  exact ⟨h₀, es, m, _, hr, hrest, run_of_loadsWell hwell, rfl, hnot⟩

end Package

end ResourceHost
