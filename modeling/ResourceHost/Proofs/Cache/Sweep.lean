import Mathlib.Data.List.Basic
import ResourceHost.Proofs.Cache.Batches
import ResourceHost.Proofs.Cache.Listing
import ResourceHost.Proofs.Id.Order

/-!
# The sweep of reloads

While nobody is amid a request, a sweep reloads every entry once, in the order
of the handles.  What comes of an entry is what would come of it alone, for a
reload leaves alone what the others depend on: so the whole is told from the
cache as it was before.
-/

namespace ResourceHost.Cache

variable {c c' : Cache} {h : Handle} {e : Entry} {hs : List Handle}

/-- Why a handle keeps what it has when it is reloaded from the source. -/
def refusal? (c : Cache) (h : Handle) : Option Failure :=
  match (c.refresh h).1 with
  | .ok _ => none
  | .error f => some f

/-! ### What one reload leaves for the others -/

theorem refresh_congr (ha : Alike h c c') : c'.refresh h = c.refresh h := by
  simp only [refresh, held?, ha.read, ha.lookup?, ha.kind?]

theorem refreshed?_congr (ha : Alike h c c') :
    c'.refreshed? h = c.refreshed? h := by
  rw [refreshed?, refreshed?, refresh_congr ha, ha.lookup?]

theorem refusal?_congr (ha : Alike h c c') : c'.refusal? h = c.refusal? h := by
  rw [refusal?, refusal?, refresh_congr ha]

/-- A reload that is refused names the handle. -/
theorem handle?_of_refusal? {f : Failure} (hf : c.refusal? h = some f) :
    f.handle? = some h := by
  unfold refusal? at hf
  split at hf
  · cases hf
  · rename_i hrefresh
    cases hf
    exact handle?_of_refresh hrefresh

/-! ### The sweep over some handles -/

/-- Some handles have been reloaded from the source once each, one after
another. -/
structure Sweeps (c : Cache) (hs : List Handle) (c' : Cache) : Prop where
  lookup? : ∀ h, c'.lookup? h = if h ∈ hs then c.refreshed? h else c.lookup? h
  log : c'.log = (hs.flatMap fun h => (c.refresh h).2).reverse ++ c.log
  settings : c.SameSettings c'
  calm : c'.Calm

theorem Sweeps.nil (hc : c.Calm) : c.Sweeps [] c :=
  ⟨fun _ => rfl, rfl, .refl c, hc⟩

/-- One handle, and then others. -/
theorem Sweeps.cons {c₁ : Cache}
    (hs₁ : c.Swaps h (c.refreshed? h) (c.refresh h).2 c₁) (hn : h ∉ hs)
    (ht : c₁.Sweeps hs c') : c.Sweeps (h :: hs) c' := by
  have halike : ∀ h', h' ≠ h → Alike h' c c₁ :=
    fun h' hne => hs₁.alike (fun _ => handle_of_mem_refresh) hne
  refine ⟨fun h' => ?_, ?_, hs₁.settings.trans ht.settings, ht.calm⟩
  · rw [ht.lookup?]
    by_cases hh : h' = h
    · subst hh
      rw [if_neg hn, if_pos List.mem_cons_self, hs₁.lookup?]
    · have hmem : h' ∈ h :: hs ↔ h' ∈ hs := by simp [hh]
      simp only [hmem, refreshed?_congr (halike h' hh), (halike h' hh).lookup?]
  · have hcalls : (hs.flatMap fun h => (c₁.refresh h).2) =
        hs.flatMap fun h => (c.refresh h).2 := by
      refine List.flatMap_congr fun h' hh' => ?_
      have hne : h' ≠ h := fun heq => hn (heq ▸ hh')
      rw [refresh_congr (halike h' hne)]
    rw [ht.log, hcalls, hs₁.log, List.flatMap_cons, List.reverse_append,
      List.append_assoc]

/-- A report with one more handle, and why it was refused if it was. -/
def ReloadReport.noting (report : ReloadReport) : Option Failure → ReloadReport
  | none => { report with reloaded := report.reloaded + 1 }
  | some f => { report with failed := report.failed ++ [f] }

/-- A handle that is listed is reloaded, and noted. -/
theorem run_reloadEach_cons (hc : c.Calm) (he : c.lookup? h = some e)
    (hs : List Handle) (report : ReloadReport) :
    ∃ c₁, (reloadEach (h :: hs) report).run c =
        (reloadEach hs (report.noting (c.refusal? h))).run c₁ ∧
      c.Swaps h (c.refreshed? h) (c.refresh h).2 c₁ ∧ c₁.Calm := by
  obtain ⟨c₁, hrun, hs₁⟩ := (hc.ready h).run_reloadFromSource
  have hstate : (Cache.state h).run c = (e.state, c) := by
    rw [hc.run_state, he]
    rfl
  refine ⟨c₁, ?_, hs₁, calm_iff.2 fun h' =>
    (hc.ready h').of_swaps hs₁ fun e he => (hc.ready h).refreshed he⟩
  rw [reloadEach, Program.run_bind, hstate, if_pos (hc.loaded h e he).1.state,
    Program.run_bind, hrun, refusal?]
  cases (c.refresh h).1 <;> rfl

/-- A sweep over handles that are listed reloads each of them, and reports those
that were reloaded and the failures of the others. -/
theorem run_reloadEach (hc : c.Calm) (hn : hs.Nodup)
    (hl : ∀ h ∈ hs, ∃ e, c.lookup? h = some e) (report : ReloadReport) :
    ∃ c', (reloadEach hs report).run c =
        ({ reloaded := report.reloaded +
          hs.countP fun h => (c.refusal? h).isNone
           failed := report.failed ++ hs.filterMap c.refusal? }, c') ∧
          c.Sweeps hs c' := by
  induction hs generalizing c report with
  | nil => exact ⟨c, by rw [List.filterMap_nil, List.append_nil]; rfl, .nil hc⟩
  | cons h hs ih =>
    obtain ⟨hnh, hn⟩ := List.nodup_cons.1 hn
    obtain ⟨e, he⟩ := hl h List.mem_cons_self
    obtain ⟨c₁, hrun, hs₁, hc₁⟩ := run_reloadEach_cons hc he hs report
    have halike : ∀ h' ∈ hs, Alike h' c c₁ := fun h' hh' =>
      hs₁.alike (fun _ => handle_of_mem_refresh) fun heq => hnh (heq ▸ hh')
    have hlisted : ∀ h' ∈ hs, ∃ e, c₁.lookup? h' = some e := fun h' hh' => by
      rw [(halike h' hh').lookup?]
      exact hl h' (List.mem_cons_of_mem _ hh')
    -- The others are told from the cache before, for nothing of theirs has
    -- changed.
    have hcount : (hs.countP fun h => (c₁.refusal? h).isNone) =
        hs.countP fun h => (c.refusal? h).isNone :=
      List.countP_congr fun h' hh' => by rw [refusal?_congr (halike h' hh')]
    have hfailed : hs.filterMap c₁.refusal? = hs.filterMap c.refusal? :=
      List.filterMap_congr fun h' hh' => refusal?_congr (halike h' hh')
    obtain ⟨c', hrest, ht⟩ := ih hc₁ hn hlisted (report.noting (c.refusal? h))
    refine ⟨c', ?_, ht.cons hs₁ hnh⟩
    rw [hrun, hrest, hcount, hfailed]
    cases hf : c.refusal? h with
    | none =>
      rw [List.countP_cons_of_pos (by rw [hf]; rfl),
        List.filterMap_cons_none hf, Nat.add_comm _ 1, ← Nat.add_assoc]
      rfl
    | some f =>
      rw [List.countP_cons_of_neg (by rw [hf]; exact Bool.false_ne_true),
        List.filterMap_cons_some hf, List.append_cons]
      rfl

/-! ### The sweep over all handles -/

/-- The handles whose entries are online or offline. -/
def loadedHandles (c : Cache) : List Handle :=
  c.handles.filter fun h =>
    (c.lookup? h).any fun e => e.state = .online ∨ e.state = .offline

theorem Calm.mem_handles_iff (hc : c.Calm) :
    h ∈ c.handles ↔ ∃ e, c.lookup? h = some e := by
  rw [Cache.mem_handles_iff, isListed_eq_isSome]
  constructor
  · intro hs
    obtain ⟨s, hs⟩ := Option.isSome_iff_exists.1 hs
    exact ⟨_, lookup?_of_made hs ((hc.ready h).made s hs)⟩
  · rintro ⟨e, he⟩
    obtain ⟨s, hs, -⟩ := (hc.ready h).exists_slot he
    rw [hs]
    rfl

/-- Whatever is listed is online or offline. -/
theorem Calm.loadedHandles_eq (hc : c.Calm) : c.loadedHandles = c.handles := by
  refine List.filter_eq_self.2 fun h hh => ?_
  obtain ⟨e, he⟩ := hc.mem_handles_iff.1 hh
  rw [he]
  exact decide_eq_true (hc.loaded h e he).1.state

/-- Every handle is renewed or refused. -/
theorem countP_add_length_refusals (c : Cache) (hs : List Handle) :
    (hs.countP fun h => (c.refusal? h).isNone) +
      (hs.filterMap c.refusal?).length = hs.length := by
  have hnot : (fun h => (c.refusal? h).isSome) =
      fun h => decide ¬ (c.refusal? h).isNone = true := by
    funext h
    cases c.refusal? h <;> rfl
  rw [List.length_filterMap_eq_countP, hnot, ← List.length_eq_countP_add_countP]

/-- The failures name the handles that are refused, in their order. -/
theorem map_handle?_refusals (c : Cache) (hs : List Handle) :
    (hs.filterMap c.refusal?).map Failure.handle? =
      (hs.filter fun h => (c.refusal? h).isSome).map some := by
  induction hs with
  | nil => rfl
  | cons h hs ih =>
    cases hf : c.refusal? h with
    | none =>
      rw [List.filterMap_cons_none hf,
        List.filter_cons_of_neg (by simp [hf]), ih]
    | some f =>
      rw [List.filterMap_cons_some hf, List.filter_cons_of_pos (by simp [hf]),
        List.map_cons, List.map_cons, ih, handle?_of_refusal? hf]

/-- What a loaded entry comes to when it is reloaded from the source. -/
structure Renewal (c : Cache) (h : Handle) (e : Entry) (c' : Cache)
    (old : Representation) (k : Kind) : Prop where
  held : e.held = some old
  kind : c.kind? h.type = some k
  renewed : ∀ bytes content, c.source.read h = .ok bytes →
    k.reload h old.content bytes = .ok content →
    c'.lookup? h = some (e.holding (Entry.nextObject old content)) ∧
    c.refusal? h = none
  refused : ∀ bytes f, c.source.read h = .ok bytes →
    k.reload h old.content bytes = .error f →
    c'.lookup? h = some e ∧ c.refusal? h = some (.reload h f)
  unread : ∀ why, c.source.read h = .error why →
    c'.lookup? h = some e ∧ c.refusal? h = some (.noBytes h why)

/-- A loaded entry is renewed, or stays with what it has and a failure says
why. -/
theorem Sweeps.exists_renewal (ht : c.Sweeps hs c') (hh : h ∈ hs) (hc : c.Calm)
    (he : c.lookup? h = some e) : ∃ old k, c.Renewal h e c' old k := by
  obtain ⟨old, k, hold, hk, hheld⟩ := (hc.ready h).exists_held? he
  have hlookup : c'.lookup? h = c.refreshed? h := by rw [ht.lookup?, if_pos hh]
  have hkept : ∀ {f}, (c.refresh h).1 = .error f →
      c'.lookup? h = some e ∧ c.refusal? h = some f := by
    intro f hf
    rw [hlookup, refreshed?_of_error hf, he, refusal?, hf]
    exact ⟨rfl, rfl⟩
  refine ⟨old, k, hold, hk, fun bytes content hread hr => ?_,
    fun bytes f hread hr => hkept ?_, fun why hread => hkept ?_⟩
  · have hrefresh : (c.refresh h).1 = .ok (Entry.nextObject old content) := by
      rw [refresh_of_held hread hheld, hr]
      rfl
    rw [hlookup, refreshed?_of_ok hrefresh, he, refusal?, hrefresh]
    exact ⟨rfl, rfl⟩
  · rw [refresh_of_held hread hheld, hr]
    rfl
  · rw [refresh_of_unread hread]

/-- References are not touched. -/
theorem Sweeps.refCount (ht : c.Sweeps hs c') (h : Handle) :
    (c'.lookup? h).map Entry.refCount = (c.lookup? h).map Entry.refCount := by
  rw [ht.lookup?]
  split
  · rw [refreshed?, Option.map_map]
    refine congrArg (Option.map · (c.lookup? h)) (funext fun e => ?_)
    show (match (c.refresh h).1 with
      | .ok new => e.holding new
      | .error _ => e).refCount = e.refCount
    split <;> rfl
  · rfl

end ResourceHost.Cache
