import ResourceHost.Proofs.Cache.Loads
import ResourceHost.Proofs.Cache.Reloads

/-!
# Batches

An operation on several names is carried out on one after another, up to the
first on which it fails: what it did before stays done, and the names behind are
not touched.  For a load it is told beforehand where it fails, however often
names are repeated: at the first that is missing and cannot be loaded.
-/

namespace ResourceHost.Cache

variable {c c' c'' : Cache} {t : TypeId} {k : Kind} {n n' : NameId}
  {names : List NameId} {h : Handle} {a : Except Failure Unit}

/-! ### References taken in turn -/

/-- References to names have been taken, to each as often as it is among them:
those that were missing have been loaded once, and nothing else has changed. -/
structure Takes (c : Cache) (t : TypeId) (k : Kind) (names : List NameId)
    (c' : Cache) : Prop where
  lookup? : ∀ n, c'.lookup? ⟨t, n⟩ = c.taken? k ⟨t, n⟩ (names.count n)
  calls : ∀ n, c'.log.filter (·.handle = ⟨t, n⟩) =
    (c.takeCalls k ⟨t, n⟩ (names.count n)).reverse ++
      c.log.filter (·.handle = ⟨t, n⟩)
  settings : c.SameSettings c'
  others : ∀ h, (h.type = t → h.name ∉ names) → Alike h c c'
  slots : ∀ s, c.Made s → ¬ c.Listed s → c'.Made s ∧ c.Keeps c' s

theorem taken?_zero (c : Cache) (k : Kind) (h : Handle) :
    c.taken? k h 0 = c.lookup? h := by
  cases hl : c.lookup? h with
  | none => simp only [taken?, hl, if_true]
  | some e =>
    simp only [taken?, hl]
    rfl

theorem takeCalls_zero (c : Cache) (k : Kind) (h : Handle) :
    c.takeCalls k h 0 = [] := by
  simp [takeCalls]

theorem Takes.nil (c : Cache) (t : TypeId) (k : Kind) : c.Takes t k [] c :=
  ⟨fun n => (taken?_zero c k ⟨t, n⟩).symm,
    fun n => by
      rw [List.count_nil, takeCalls_zero, List.reverse_nil, List.nil_append],
    .refl c, fun h _ => .refl h c, fun s hs _ => ⟨hs, rfl, Iff.rfl⟩⟩

/-! ### One more reference -/

section

variable (ha : Alike h c c')

include ha

theorem denial?_congr : c'.denial? k h = c.denial? k h := by
  simp only [denial?, loads, ha.lookup?, ha.read]

theorem taken?_congr (m : Nat) : c'.taken? k h m = c.taken? k h m := by
  simp only [taken?, loads, nextObject, ha.lookup?, ha.read, ha.nextSlot]

theorem loadCalls_congr : c'.loadCalls k h = c.loadCalls k h := by
  have hobject : c'.nextObject h = c.nextObject h := by
    funext content
    rw [nextObject, nextObject, ha.nextSlot]
  simp only [loadCalls, fetchCalls, loads, ha.read, hobject]

theorem takeCalls_congr (m : Nat) : c'.takeCalls k h m = c.takeCalls k h m := by
  simp only [takeCalls, loadCalls_congr ha, ha.lookup?]

end

/-- What is missing and can be had can be loaded. -/
theorem exists_loads (hd : c.denial? k h = none) (hl : c.lookup? h = none) :
    ∃ content, c.loads k h = .ok content := by
  cases hloads : c.loads k h with
  | ok content => exact ⟨content, rfl⟩
  | error f =>
    simp only [denial?, hl, hloads] at hd
    cases hd

/-- What cannot be had is missing and cannot be loaded. -/
theorem missing_of_denial? {f : Failure} (hf : c.denial? k h = some f) :
    c.lookup? h = none ∧ c.loads k h = .error f := by
  unfold denial? at hf
  split at hf
  · rename_i f' hl hloads
    cases hf
    exact ⟨hl, hloads⟩
  · cases hf

/-- What can be had is there once a reference has been taken. -/
theorem exists_taken? (hd : c.denial? k h = none) (m : Nat) :
    ∃ e, c.taken? k h (m + 1) = some e := by
  refine Option.isSome_iff_exists.1 ?_
  cases hl : c.lookup? h with
  | some e => simp only [taken?, hl, Option.isSome_some]
  | none =>
    obtain ⟨content, hloads⟩ := exists_loads hd hl
    simp only [taken?, hl, hloads, Nat.succ_ne_zero, if_false,
      Option.isSome_some]

/-- Further references are taken to what has been had once. -/
theorem taken?_succ (hd : c.denial? k h = none)
    (hl' : c'.lookup? h = c.taken? k h 1) (m : Nat) :
    c'.taken? k h m = c.taken? k h (m + 1) := by
  cases hl : c.lookup? h with
  | some e =>
    simp only [taken?, hl] at hl' ⊢
    rw [hl']
    simp only [Entry.refCount_counting, Entry.counting_counting]
    rw [Nat.add_assoc, Nat.add_comm 1 m]
  | none =>
    obtain ⟨content, hloads⟩ := exists_loads hd hl
    simp only [taken?, hl, hloads, Nat.succ_ne_zero, if_false] at hl' ⊢
    rw [hl']
    show some ((Entry.started _ 1).counting (1 + m)) = _
    rw [Nat.add_comm 1 m]
    rfl

/-- Nothing is called for further references. -/
theorem takeCalls_succ (hd : c.denial? k h = none)
    (hl' : c'.lookup? h = c.taken? k h 1) (m : Nat) :
    c.takeCalls k h 1 ++ c'.takeCalls k h m = c.takeCalls k h (m + 1) := by
  obtain ⟨e, he⟩ := exists_taken? hd 0
  have hnone : c'.takeCalls k h m = [] := by simp [takeCalls, hl', he]
  have hsame : c.takeCalls k h 1 = c.takeCalls k h (m + 1) := by
    simp [takeCalls]
  rw [hnone, List.append_nil, hsame]

/-- Once a name has been had, the same names can be had as before. -/
theorem denial?_of_swaps (hd : c.denial? k ⟨t, n⟩ = none)
    (hs : c.Swaps ⟨t, n⟩ (c.taken? k ⟨t, n⟩ 1) (c.takeCalls k ⟨t, n⟩ 1) c')
    (h : Handle) : c'.denial? k h = c.denial? k h := by
  by_cases hh : h = ⟨t, n⟩
  · subst hh
    obtain ⟨e, he⟩ := exists_taken? hd 0
    rw [hd, denial?, hs.lookup?, he]
  · exact denial?_congr (hs.alike (fun _ => handle_of_mem_takeCalls) hh)

/-- One reference, and then others. -/
theorem Takes.cons (hd : c.denial? k ⟨t, n⟩ = none)
    (hs : c.Swaps ⟨t, n⟩ (c.taken? k ⟨t, n⟩ 1) (c.takeCalls k ⟨t, n⟩ 1) c')
    (ht : c'.Takes t k names c'') : c.Takes t k (n :: names) c'' := by
  have halike : ∀ h, h ≠ ⟨t, n⟩ → Alike h c c' :=
    fun h hne => hs.alike (fun _ => handle_of_mem_takeCalls) hne
  have hname : ∀ {n'}, n' ≠ n → (⟨t, n'⟩ : Handle) ≠ ⟨t, n⟩ :=
    fun hne heq => hne (congrArg Handle.name heq)
  refine ⟨fun n' => ?_, fun n' => ?_, hs.settings.trans ht.settings,
    fun h hh => ?_, fun s hm hl => ?_⟩
  · rw [ht.lookup?]
    by_cases hn : n' = n
    · rw [hn, List.count_cons_self, taken?_succ hd hs.lookup?]
    · rw [List.count_cons_of_ne (Ne.symm hn),
        taken?_congr (halike _ (hname hn))]
  · rw [ht.calls]
    by_cases hn : n' = n
    · rw [hn, List.count_cons_self, ← takeCalls_succ hd hs.lookup?,
        List.reverse_append, hs.calls_self fun _ => handle_of_mem_takeCalls,
        List.append_assoc]
    · rw [List.count_cons_of_ne (Ne.symm hn),
        takeCalls_congr (halike _ (hname hn)), (halike _ (hname hn)).calls]
  · have hne : h ≠ ⟨t, n⟩ := by
      rintro rfl
      exact hh rfl List.mem_cons_self
    exact (halike h hne).trans
      (ht.others h fun htype hmem => hh htype (List.mem_cons_of_mem _ hmem))
  · have hne : c.find? ⟨t, n⟩ ≠ some s :=
      fun hf => hl (find?_eq_some_iff.1 hf).2
    obtain ⟨hm', hk⟩ := hs.slots s hm hne
    obtain ⟨hm'', hk'⟩ := ht.slots s hm' fun hl' => hl (hk.listed.1 hl')
    exact ⟨hm'', hk.trans hk'⟩

/-! ### Loads -/

/-- A load without a name that cannot be had takes all its references. -/
theorem run_acquireAll (hreg : c.Registered t)
    (hr : ∀ n ∈ names, c.Ready ⟨t, n⟩)
    (hd : ∀ n ∈ names, c.denial? k ⟨t, n⟩ = none) :
    ∃ c', (acquireAll t k names).run c = (.ok (), c') ∧ c.Takes t k names c' ∧
      (∀ h, c'.denial? k h = c.denial? k h) ∧ ∀ h, c.Ready h → c'.Ready h := by
  induction names generalizing c with
  | nil => exact ⟨c, rfl, .nil c t k, fun _ => rfl, fun _ => id⟩
  | cons n names ih =>
    have hn := hr n List.mem_cons_self
    obtain ⟨c₁, hrun, hs⟩ := hn.run_acquire k
    have hdn := hd n List.mem_cons_self
    have hready : ∀ h, c.Ready h → c₁.Ready h :=
      fun h hh => hh.of_swaps hs fun e he => hn.taken hreg he
    have hdenial := denial?_of_swaps hdn hs
    have hreg' : c₁.Registered t := by
      rw [Registered, hs.settings.kind?]
      exact hreg
    obtain ⟨c', hrest, ht, hdenial', hready'⟩ := ih hreg'
      (fun n' hn' => hready _ (hr n' (List.mem_cons_of_mem _ hn')))
      (fun n' hn' => (hdenial _).trans (hd n' (List.mem_cons_of_mem _ hn')))
    refine ⟨c', ?_, ht.cons hdn hs, fun h => (hdenial' h).trans (hdenial h),
      fun h hh => hready' h (hready h hh)⟩
    rw [acquireAll, Program.run_orStop, Program.run_request, hrun, hdn]
    exact hrest

/-- What is taken before the first failure is taken first. -/
theorem run_acquireAll_append {before : List NameId} (after : List NameId)
    (hrun : (acquireAll t k before).run c = (.ok (), c')) :
    (acquireAll t k (before ++ after)).run c =
      (acquireAll t k after).run c' := by
  induction before generalizing c with
  | nil =>
    cases hrun
    rfl
  | cons n before ih =>
    obtain ⟨_, c₁, hfirst, hrest⟩ := Program.run_orStop_eq_ok hrun
    rw [List.cons_append, acquireAll, Program.run_orStop_of_ok hfirst]
    exact ih hrest

/-- A load stops at the first name that cannot be had. -/
theorem run_acquireAll_of_denial {before after : List NameId} {f : Failure}
    (hreg : c.Registered t) (hr : ∀ n' ∈ before ++ n :: after, c.Ready ⟨t, n'⟩)
    (hd : ∀ n' ∈ before, c.denial? k ⟨t, n'⟩ = none)
    (hf : c.denial? k ⟨t, n⟩ = some f) :
    ∃ c₁ c', (acquireAll t k (before ++ n :: after)).run c = (.error f, c') ∧
      c.Takes t k before c₁ ∧
      c₁.Swaps ⟨t, n⟩ none (c.loadCalls k ⟨t, n⟩) c' := by
  obtain ⟨c₁, hrun, ht, hdenial, hready⟩ := run_acquireAll hreg
    (fun n' hn' => hr n' (List.mem_append_left _ hn')) hd
  have hn : n ∉ before := by
    intro hmem
    rw [hd n hmem] at hf
    cases hf
  have halike : Alike ⟨t, n⟩ c c₁ := ht.others _ fun _ => hn
  obtain ⟨c', hfail, hs⟩ := (hready _ (hr n (by simp))).run_acquire k
  rw [hdenial, hf] at hfail
  refine ⟨c₁, c', ?_, ht, ?_⟩
  · rw [run_acquireAll_append _ hrun, acquireAll, Program.run_orStop,
      Program.run_request, hfail]
    rfl
  · obtain ⟨hl, hloads⟩ := missing_of_denial? hf
    rw [taken?_congr halike, takeCalls_congr halike] at hs
    simpa [taken?, takeCalls, hl, hloads] using hs

/-! ### In turn -/

/-- An operation is carried out on names in turn, up to the first on which it
fails. -/
inductive InTurn (Does : NameId → Cache → Except Failure Unit → Cache → Prop) :
    List NameId → Cache → Except Failure Unit → Cache → Prop where
  | done {c : Cache} : InTurn Does [] c (.ok ()) c
  | goOn {n : NameId} {names : List NameId} {c c₁ c' : Cache}
      {a : Except Failure Unit} (h : Does n c (.ok ()) c₁)
      (rest : InTurn Does names c₁ a c') : InTurn Does (n :: names) c a c'
  | stop {n : NameId} {names : List NameId} {c c' : Cache} {f : Failure}
      (h : Does n c (.error f) c') : InTurn Does (n :: names) c (.error f) c'

/-- One name is reloaded from the source. -/
structure Reloads (t : TypeId) (n : NameId) (c : Cache)
    (a : Except Failure Unit) (c' : Cache) : Prop where
  alone : (reloadFromSource t [n]).run c = (a, c')
  answer : a = (c.refresh ⟨t, n⟩).1.map fun _ => ()
  swaps : c.Swaps ⟨t, n⟩ (c.refreshed? ⟨t, n⟩) (c.refresh ⟨t, n⟩).2 c'

/-- One name is unloaded. -/
structure Unloads (t : TypeId) (n : NameId) (c : Cache)
    (a : Except Failure Unit) (c' : Cache) : Prop where
  alone : (unload ⟨t, n⟩).run c = (a, c')
  answer : a = .ok ()
  swaps : c.Swaps ⟨t, n⟩ none (c.unloadCalls ⟨t, n⟩) c'

/-- Names that are not tried are not touched. -/
theorem InTurn.exists_tried
    {Does : NameId → Cache → Except Failure Unit → Cache → Prop}
    (hdoes : ∀ {n c a c'}, Does n c a c' →
      c.SameSettings c' ∧ ∀ h, h ≠ ⟨t, n⟩ → Alike h c c')
    (hi : InTurn Does names c a c') :
    c.SameSettings c' ∧ ∃ tried rest, names = tried ++ rest ∧
      (a = .ok () → rest = []) ∧
      ∀ h, (h.type = t → h.name ∉ tried) → Alike h c c' := by
  have hne : ∀ {h : Handle} {n : NameId} {tried : List NameId},
      (h.type = t → h.name ∉ n :: tried) → h ≠ ⟨t, n⟩ := by
    rintro h n tried hh rfl
    exact hh rfl List.mem_cons_self
  induction hi with
  | done => exact ⟨.refl _, [], [], rfl, fun _ => rfl, fun h _ => .refl h _⟩
  | @goOn n names c c₁ c' a hn hrest ih =>
    obtain ⟨hset, halike⟩ := hdoes hn
    obtain ⟨hset', tried, rest, rfl, hok, hothers⟩ := ih
    refine ⟨hset.trans hset', n :: tried, rest, rfl, hok, fun h hh => ?_⟩
    exact (halike h (hne hh)).trans
      (hothers h fun htype hmem => hh htype (List.mem_cons_of_mem _ hmem))
  | @stop n names c c' f hn =>
    obtain ⟨hset, halike⟩ := hdoes hn
    exact ⟨hset, [n], names, rfl, nofun, fun h hh => halike h (hne hh)⟩

theorem Reloads.leaves {n : NameId} (hn : Reloads t n c a c') :
    c.SameSettings c' ∧ ∀ h, h ≠ ⟨t, n⟩ → Alike h c c' :=
  ⟨hn.swaps.settings,
    fun _ hne => hn.swaps.alike (fun _ => handle_of_mem_refresh) hne⟩

theorem Unloads.leaves {n : NameId} (hn : Unloads t n c a c') :
    c.SameSettings c' ∧ ∀ h, h ≠ ⟨t, n⟩ → Alike h c c' :=
  ⟨hn.swaps.settings,
    fun _ hne => hn.swaps.alike (fun _ => handle_of_mem_unloadCalls) hne⟩

/-! ### Reloads and unloads -/

/-- A reload of the first name, and of the others unless it fails. -/
theorem run_reloadFromSource_cons (t : TypeId) (n : NameId)
    (names : List NameId) (c : Cache) :
    (reloadFromSource t (n :: names)).run c =
      ((reloadFromSource t [n]).orStop fun _ => reloadFromSource t names).run
        c := by
  rw [Program.run_orStop]
  simp only [reloadFromSource, Program.run_orStop]
  cases ((readSource ⟨t, n⟩).run c).1 with
  | error f => rfl
  | ok bytes =>
    dsimp only
    cases ((reload ⟨t, n⟩ bytes).run ((readSource ⟨t, n⟩).run c).2).1 with
    | error f => rfl
    | ok u => rfl

theorem inTurn_reloadFromSource (hr : ∀ n ∈ names, c.Ready ⟨t, n⟩) :
    ∃ a c', (reloadFromSource t names).run c = (a, c') ∧
      InTurn (Reloads t) names c a c' := by
  induction names generalizing c with
  | nil => exact ⟨_, c, rfl, .done⟩
  | cons n names ih =>
    have hn := hr n List.mem_cons_self
    obtain ⟨c₁, hrun, hs⟩ := hn.run_reloadFromSource
    rw [run_reloadFromSource_cons, Program.run_orStop, hrun]
    cases hrefresh : (c.refresh ⟨t, n⟩).1 with
    | error f =>
      rw [hrefresh] at hrun
      exact ⟨_, c₁, rfl, .stop ⟨hrun, by rw [hrefresh]; rfl, hs⟩⟩
    | ok new =>
      rw [hrefresh] at hrun
      obtain ⟨a, c', hrest, hi⟩ := ih fun n' hn' =>
        (hr n' (List.mem_cons_of_mem _ hn')).of_swaps hs
          fun e he => hn.refreshed he
      exact ⟨a, c', hrest, .goOn ⟨hrun, by rw [hrefresh]; rfl, hs⟩ hi⟩

theorem inTurn_unloadAll (hr : ∀ n ∈ names, c.Ready ⟨t, n⟩) :
    ∃ c', (unloadAll t names).run c = (.ok (), c') ∧
      InTurn (Unloads t) names c (.ok ()) c' := by
  induction names generalizing c with
  | nil => exact ⟨c, rfl, .done⟩
  | cons n names ih =>
    obtain ⟨c₁, hrun, hs⟩ := (hr n List.mem_cons_self).run_unload
    rw [unloadAll, Program.run_orStop, hrun]
    obtain ⟨c', hrest, hi⟩ := ih fun n' hn' =>
      (hr n' (List.mem_cons_of_mem _ hn')).of_swaps hs fun e he => nomatch he
    exact ⟨c', hrest, .goOn ⟨hrun, rfl, hs⟩ hi⟩

/-- Names that have been unloaded are missing. -/
theorem InTurn.lookup?_of_unloads (hi : InTurn (Unloads t) names c a c')
    (hn : n ∈ names) : c'.lookup? ⟨t, n⟩ = none := by
  induction hi with
  | done => cases hn
  | @goOn n' names c c₁ c' a hdoes hrest ih =>
    by_cases hmem : n ∈ names
    · exact ih hmem
    · obtain rfl : n = n' := (List.mem_cons.1 hn).resolve_right hmem
      obtain ⟨-, tried, rest, rfl, -, hothers⟩ :=
        hrest.exists_tried Unloads.leaves
      have halike := hothers ⟨t, n⟩ fun _ ht => hmem (List.mem_append_left _ ht)
      rw [halike.lookup?, hdoes.swaps.lookup?]
  | stop hdoes => cases hdoes.answer

end ResourceHost.Cache
