import ResourceHost.Proofs.Cache.Batches
import ResourceHost.Proofs.Threads.Reloading

/-!
# Batches on caches that are shared

While nobody has a load to finish, whatever is listed in a slot that nobody has
locked is loaded.  So a batch on such handles comes to what it comes to on a
cache of one's own: it has the effect of the names up to the first failure, and
no other.
-/

namespace ResourceHost.Machine

variable {α : Type} {conduct : Conduct} {m₀ m : Machine α} {es : List Event}

/-- While nobody has a load to finish, a handle is ready unless its slot is
locked. -/
theorem Course.ready (hr : Course conduct m₀ es m) (h₀ : m₀.Starts conduct)
    (hidle : ∀ t ∈ m.threads, t.owner? = none) {h : Handle}
    (hfree : ∀ s, m.cache.find? h = some s → m.free.slot s = true) :
    m.cache.Ready h := by
  rcases (hr.inv h₀).fresh_or_ready hfree with ⟨s, hs, -, he, -⟩ | hready
  · obtain ⟨st, hst⟩ := hr.exists_stands h₀ s.handle
    obtain ⟨j, t, hj, ho⟩ :=
      (hr.inv h₀).owner_of_loading hst (hfree s hs) (by rw [he]; rfl)
    rw [hidle t (List.mem_of_getElem? hj)] at ho
    cases ho
  · exact hready

/-- A batch has the effect of its names up to the first failure.  A load needs a
type that is registered, unless it is of no name.  If no name is denied, it
takes a reference for each occurrence of each; if one is, it takes those before
it, fails as that load fails, and leaves that handle missing.  Names are
reloaded from the source one after another, up to the first that fails, and are
all unloaded.  Handles that are not tried are left alone. -/
theorem batches (h₀ : m₀.Starts conduct) (hr : Course conduct m₀ es m)
    (hidle : ∀ t ∈ m.threads, t.owner? = none) (t : TypeId)
    (names : List NameId)
    (hfree : ∀ n ∈ names, ∀ s, m.cache.find? ⟨t, n⟩ = some s →
      m.free.slot s = true) :
    ((Cache.load t []).run m.cache =
        (.ok (), m.cache)) ∧
    (names ≠ [] → m.cache.kind? t = none →
      (Cache.load t names).run m.cache = (.error (.unknownType t), m.cache)) ∧
    (∀ k, m.cache.kind? t = some k →
      ((∀ n ∈ names, m.cache.denial? k ⟨t, n⟩ = none) →
        ∃ c', (Cache.load t names).run m.cache = (.ok (), c') ∧
          m.cache.Takes t k names c') ∧
      ∀ (before after : List NameId) (n : NameId) (f : Failure),
        names = before ++ n :: after →
        (∀ n' ∈ before, m.cache.denial? k ⟨t, n'⟩ = none) →
        m.cache.denial? k ⟨t, n⟩ = some f →
        ∃ c₁ c', (Cache.load t names).run m.cache = (.error f, c') ∧
          m.cache.Takes t k before c₁ ∧
          c₁.Swaps ⟨t, n⟩ none (m.cache.loadCalls k ⟨t, n⟩) c') ∧
    (∃ a c', (Cache.reloadFromSource t names).run m.cache = (a, c') ∧
      Cache.InTurn (Cache.Reloads t) names m.cache a c' ∧
      ∃ tried rest, names = tried ++ rest ∧ (a = .ok () → rest = []) ∧
        ∀ h, (h.type = t → h.name ∉ tried) → Cache.Alike h m.cache c') ∧
    ∃ c', (Cache.unloadAll t names).run m.cache = (.ok (), c') ∧
      Cache.InTurn (Cache.Unloads t) names m.cache (.ok ()) c' ∧
      (∀ n ∈ names, c'.lookup? ⟨t, n⟩ = none) ∧
      ∀ h, (h.type = t → h.name ∉ names) → Cache.Alike h m.cache c' := by
  have hready : ∀ n ∈ names, m.cache.Ready ⟨t, n⟩ :=
    fun n hn => hr.ready h₀ hidle (hfree n hn)
  have hload : names ≠ [] → (Cache.load t names).run m.cache =
      ((Cache.kindOf t).orStop fun k => Cache.acquireAll t k names).run
        m.cache := by
    intro hne
    rw [Cache.load, if_neg (by simpa using hne)]
  refine ⟨rfl, fun hne hk => ?_, fun k hk => ⟨fun hd => ?_, ?_⟩, ?_, ?_⟩
  · rw [hload hne, Program.run_orStop, Cache.run_kindOf, hk]
    rfl
  · by_cases hne : names = []
    · subst hne
      exact ⟨_, rfl, .nil _ t k⟩
    · obtain ⟨c', hrun, ht, -⟩ :=
        Cache.run_acquireAll (by rw [Cache.Registered, hk]; rfl) hready hd
      refine ⟨c', ?_, ht⟩
      rw [hload hne, Program.run_orStop, Cache.run_kindOf, hk]
      exact hrun
  · rintro before after n f rfl hd hf
    obtain ⟨c₁, c', hrun, ht, hs⟩ :=
      Cache.run_acquireAll_of_denial (by rw [Cache.Registered, hk]; rfl)
        hready hd hf
    refine ⟨c₁, c', ?_, ht, hs⟩
    rw [hload (by simp), Program.run_orStop, Cache.run_kindOf, hk]
    exact hrun
  · obtain ⟨a, c', hrun, hi⟩ := Cache.inTurn_reloadFromSource hready
    exact ⟨a, c', hrun, hi, (hi.exists_tried Cache.Reloads.leaves).2⟩
  · obtain ⟨c', hrun, hi⟩ := Cache.inTurn_unloadAll hready
    obtain ⟨-, tried, rest, hnames, hrest, hothers⟩ :=
      hi.exists_tried Cache.Unloads.leaves
    refine ⟨c', hrun, hi, fun n hn => hi.lookup?_of_unloads hn,
      fun h hh => hothers h ?_⟩
    rw [hnames, hrest rfl, List.append_nil] at hh
    exact hh

/-- What is theirs has been loaded, and its neighbour has no bytes: a load that
names what is theirs twice, then the neighbour, then what is theirs again takes
two references and fails for the neighbour. -/
theorem batches_of_loader :
    let neighbour : NameId := ⟨2⟩
    let held : Representation := ⟨⟨⟨theirs, 0⟩, 0⟩, .bytes [7]⟩
    let names : List NameId :=
      [theirs.name, theirs.name, neighbour, theirs.name]
    (callers [loader]).Starts rawConduct ∧
      ∃ (es : List Event) (m : Machine (Except Failure Unit)) (c c' : Cache),
        Course rawConduct (callers [loader]) es m ∧
          (∀ t ∈ m.threads, t.owner? = none) ∧
          m.free.slot ⟨theirs, 0⟩ = true ∧
          m.cache.lookup? theirs = some (.started held 1) ∧
          (Cache.load theirs.type names).run m.cache =
            (.error (.noBytes ⟨theirs.type, neighbour⟩
              (.noData ⟨theirs.type, neighbour⟩)), c) ∧
          c.lookup? theirs = some (.started held 3) ∧
          c.lookup? ⟨theirs.type, neighbour⟩ = none ∧
          (Cache.unloadAll theirs.type names).run m.cache = (.ok (), c') ∧
          c'.lookup? theirs = none := by
  intro neighbour held names
  have h₀ : (callers [loader]).Starts rawConduct := by
    refine starts_callers fun p hp => ?_
    rw [List.mem_singleton.1 hp]
    exact Cache.load_honest _ _
  have hf : ∃ (es : List Event) (m : Machine (Except Failure Unit)),
      (callers [loader]).follow (List.replicate 11 0) = some (es, m) ∧
        m.threads.all (fun t => t.owner?.isNone) = true ∧
        m.free.slot ⟨theirs, 0⟩ = true ∧
        m.cache.find? theirs = some ⟨theirs, 0⟩ ∧
        m.cache.find? ⟨theirs.type, neighbour⟩ = none ∧
        m.cache.lookup? theirs = some (.started held 1) ∧
        m.cache.lookup? ⟨theirs.type, neighbour⟩ = none ∧
        m.cache.kind? theirs.type = some (Kind.raw 3) ∧
        m.cache.source.read ⟨theirs.type, neighbour⟩ =
          .error (.noData ⟨theirs.type, neighbour⟩) :=
    ⟨_, _, rfl, rfl, rfl, rfl, rfl, rfl, rfl, rfl, rfl⟩
  obtain ⟨es, m, hfollow, howners, hslot, hfind, hfind', hmine, hother, hkind,
      hread⟩ := hf
  have hr : Course rawConduct (callers [loader]) es m :=
    course_of_follow hfollow
  have hidle : ∀ t ∈ m.threads, t.owner? = none := fun t ht =>
    Option.isNone_iff_eq_none.1 (List.all_eq_true.1 howners t ht)
  have hfree : ∀ n ∈ names, ∀ s, m.cache.find? ⟨theirs.type, n⟩ = some s →
      m.free.slot s = true := by
    intro n hn s hs
    have hcases : n = theirs.name ∨ n = neighbour := by
      have hall : ∀ n ∈ names, n = theirs.name ∨ n = neighbour := by decide
      exact hall n hn
    rcases hcases with rfl | rfl
    · cases hfind.symm.trans hs
      exact hslot
    · cases hfind'.symm.trans hs
  obtain ⟨-, -, hload, -, c', hunload, -, hgone, -⟩ :=
    batches h₀ hr hidle theirs.type names hfree
  have hhad : m.cache.denial? (Kind.raw 3) theirs = none := by
    simp only [Cache.denial?, hmine]
  have hdenied : m.cache.denial? (Kind.raw 3) ⟨theirs.type, neighbour⟩ =
      some (.noBytes ⟨theirs.type, neighbour⟩
        (.noData ⟨theirs.type, neighbour⟩)) := by
    simp only [Cache.denial?, Cache.loads, hother, hread]
  obtain ⟨c₁, c, hrun, htakes, hswaps⟩ :=
    (hload (Kind.raw 3) hkind).2 [theirs.name, theirs.name]
      [theirs.name] neighbour _ rfl (by simpa using hhad) hdenied
  refine ⟨h₀, es, m, c, c', hr, hidle, hslot, hmine, hrun, ?_, hswaps.lookup?,
    hunload, hgone theirs.name (by simp [names])⟩
  have htaken := htakes.lookup? theirs.name
  simp only [Cache.taken?, hmine] at htaken
  exact (hswaps.others (by decide)).trans htaken

end ResourceHost.Machine
