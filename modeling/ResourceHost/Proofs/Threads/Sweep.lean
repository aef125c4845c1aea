import ResourceHost.Proofs.Cache.Sweep
import ResourceHost.Proofs.Threads.Census
import ResourceHost.Proofs.Threads.Reloading

/-!
# The sweep on a cache that is shared

Whatever threads have done before, while none of them is amid a request a sweep
finds every entry loaded.  So it attempts each of them once, and what it reports
accounts for all of them.
-/

namespace ResourceHost.Machine

variable {α : Type} {conduct : Conduct} {m₀ m : Machine α} {es : List Event}

/-- A sweep loses nothing, whatever the source has, and whatever order the table
lists its handles in: the handles that are online or offline are reloaded once
each, and they ascend.  Each is renewed, or keeps its state and its
representation and a failure names it; the failures ascend, and with the number
of those renewed account for all.  References and the handles that are listed
stay. -/
theorem reload_sweep (h₀ : m₀.Starts conduct) (hr : Course conduct m₀ es m)
    (hrest : ∀ t ∈ m.threads, t.atRest = true) (source : Source) :
    let c : Cache := { m.cache with source := source }
    ∃ (report : Cache.ReloadReport) (c' : Cache),
      Cache.reloadAll.run c = (report, c') ∧
      (∀ handles : List Handle, handles.Perm c.handles →
        (Cache.reloadEach (Handle.sort handles) {}).run c = (report, c')) ∧
      ∃ swept : List Handle,
        swept.Perm c.loadedHandles ∧ swept.Pairwise (· < ·) ∧
        c'.log = (swept.flatMap fun h => (c.refresh h).2).reverse ++ c.log ∧
        (∀ h ∈ swept, ∃ e old k, c.lookup? h = some e ∧
          c.Renewal h e c' old k) ∧
        (∀ h, h ∉ swept → c.lookup? h = none ∧ c'.lookup? h = none) ∧
        (∀ h, (c'.lookup? h).map Entry.refCount =
          (c.lookup? h).map Entry.refCount) ∧
        (∀ h, h ∈ c'.handles ↔ h ∈ c.handles) ∧
        report.reloaded + report.failed.length = c.loadedHandles.length ∧
        report.failed = swept.filterMap c.refusal? ∧
        ∃ failing : List Handle, failing.Pairwise (· < ·) ∧
          (∀ h, h ∈ failing ↔ h ∈ swept ∧ (c.refusal? h).isSome) ∧
          report.failed.map Failure.handle? = failing.map some := by
  intro c
  have hr' : Course conduct m₀ es { m with cache := c } :=
    hr.drift ⟨rfl, rfl, fun _ _ => id, (hr.inv h₀).orderly.conduct⟩
  have hc : c.Calm := hr'.calm h₀ hrest
  have hnodup : c.handles.Nodup := Cache.nodup_handles (hr'.tabular h₀)
  have hmem : ∀ h, h ∈ Handle.sort c.handles ↔ ∃ e, c.lookup? h = some e :=
    fun h =>
    Handle.mem_sort.trans hc.mem_handles_iff
  obtain ⟨c', hrun, ht⟩ :=
    Cache.run_reloadEach hc ((Handle.sort_perm _).nodup_iff.2 hnodup)
      (fun h hh => (hmem h).1 hh) {}
  refine ⟨_, c', hrun, fun handles hp => ?_, Handle.sort c.handles, ?_,
    Handle.ascending_sort hnodup, ht.log, fun h hh => ?_, fun h hh => ?_,
    ht.refCount, fun h => ?_,
    ?_, List.nil_append _, _, (Handle.ascending_sort hnodup).filter _,
    fun h => List.mem_filter, ?_⟩
  · rw [Handle.sort_eq_of_perm hp]
    exact hrun
  · rw [hc.loadedHandles_eq]
    exact Handle.sort_perm _
  · obtain ⟨e, he⟩ := (hmem h).1 hh
    obtain ⟨old, k, hrenewal⟩ := ht.exists_renewal hh hc he
    exact ⟨e, old, k, he, hrenewal⟩
  · have hnone : c.lookup? h = none := by
      cases he : c.lookup? h with
      | none => rfl
      | some e => exact absurd ((hmem h).2 ⟨e, he⟩) hh
    exact ⟨hnone, by rw [ht.lookup?, if_neg hh, hnone]⟩
  · have hsome := congrArg Option.isSome (ht.refCount h)
    rw [Option.isSome_map, Option.isSome_map] at hsome
    rw [ht.calm.mem_handles_iff, hc.mem_handles_iff, ← Option.isSome_iff_exists,
      ← Option.isSome_iff_exists, hsome]
  · rw [hc.loadedHandles_eq, ← (Handle.sort_perm c.handles).length_eq]
    simp only [Nat.zero_add, List.nil_append, c.countP_add_length_refusals]
  · rw [List.nil_append]
    exact c.map_handle?_refusals _

/-- Another handle of their type. -/
def neighbour : Handle := ⟨theirs.type, ⟨2⟩⟩

/-- A caller who loads a neighbour of what is theirs, and then what is
theirs. -/
def neighbourLoader : Machine (Except Failure Unit) where
  cache :=
    { kinds := Table.empty.put theirs.type (Kind.raw 3)
      source := .memory ((Table.empty.put theirs [7]).put neighbour [9]) }
  threads :=
    [Thread.ofProgram (Cache.load theirs.type [neighbour.name, theirs.name])]

theorem starts_neighbourLoader : neighbourLoader.Starts rawConduct := by
  have hp : ∀ p ∈ [Cache.load theirs.type [neighbour.name, theirs.name]],
      p.Honest rawConduct {} := by
    intro p hp
    rw [List.mem_singleton.1 hp]
    exact Cache.load_honest _ _
  exact starts_of_kinds (acts_put nofun rfl) hp

/-- Two resources have been loaded, and then the source has new bytes for the
one and none for the other: a sweep renews the one and reports the other. -/
theorem reload_sweep_of_neighbours :
    let source : Source := .memory (Table.empty.put theirs [8])
    let first : Representation := ⟨⟨⟨theirs, 0⟩, 0⟩, .bytes [7]⟩
    let second : Representation := ⟨⟨⟨theirs, 0⟩, 1⟩, .bytes [8]⟩
    neighbourLoader.Starts rawConduct ∧
      ∃ (es : List Event) (m : Machine (Except Failure Unit))
        (report : Cache.ReloadReport) (c' : Cache),
        Course rawConduct neighbourLoader es m ∧
          (∀ t ∈ m.threads, t.atRest = true) ∧
          m.cache.lookup? theirs = some (.started first 1) ∧
          Cache.reloadAll.run { m.cache with source := source } = (report, c') ∧
          report.reloaded = 1 ∧
          report.failed = [.noBytes neighbour (.noData neighbour)] ∧
          c'.lookup? theirs = some (.started second 1) := by
  intro source first second
  have hf : ∃ (es : List Event) (m : Machine (Except Failure Unit)),
      neighbourLoader.follow (List.replicate 20 0) = some (es, m) ∧
        m.threads.all Thread.atRest = true ∧
        m.cache.lookup? theirs = some (.started first 1) ∧
        m.cache.kind? theirs.type = some (Kind.raw 3) ∧
        Cache.loadedHandles { m.cache with source := source } =
          [neighbour, theirs] ∧
        Cache.refusal? { m.cache with source := source } theirs = none ∧
        Cache.refusal? { m.cache with source := source } neighbour =
          some (.noBytes neighbour (.noData neighbour)) :=
    ⟨_, _, rfl, rfl, rfl, rfl, rfl, rfl, rfl⟩
  obtain ⟨es, m, hfollow, hrest, hmine, hkind, hhandles, hrenewed, hrefused⟩ :=
    hf
  have hr : Course rawConduct neighbourLoader es m := course_of_follow hfollow
  have hrest : ∀ t ∈ m.threads, t.atRest = true :=
    fun t ht => List.all_eq_true.1 hrest t ht
  obtain ⟨report, c', hrun, -, swept, hperm, hascending, -, hrenewal, -, -, -,
      hcount, hfailed, -⟩ :=
    reload_sweep starts_neighbourLoader hr hrest source
  rw [hhandles] at hperm hcount
  obtain rfl : swept = [theirs, neighbour] :=
    Handle.eq_of_ascending (hperm.trans (.swap theirs neighbour [])) hascending
      (by decide)
  have hreport : report.failed = [.noBytes neighbour (.noData neighbour)] := by
    rw [hfailed, List.filterMap_cons_none hrenewed,
      List.filterMap_cons_some hrefused, List.filterMap_nil]
  rw [hreport] at hcount
  obtain ⟨e, old, k, he, hrenewal⟩ := hrenewal theirs List.mem_cons_self
  cases hmine.symm.trans he
  cases hrenewal.held
  cases hkind.symm.trans hrenewal.kind
  exact ⟨starts_neighbourLoader, es, m, report, c', hr, hrest, hmine, hrun,
    Nat.succ.inj hcount, hreport, (hrenewal.renewed [8] (.bytes [8]) rfl rfl).1⟩

end ResourceHost.Machine
