import ResourceHost.Cache.Operations
import ResourceHost.Proofs.Cache.Shelves

/-!
# The table as a list

The handles and the slots that a table lists, each once.  A count of the entries
that finds each of them online or offline counts every entry, and none as
loading.
-/

namespace ResourceHost.Cache

variable {c : Cache} {h : Handle} {s : SlotId}

/-- Nothing is kept twice for one handle. -/
def Tabular (c : Cache) : Prop := c.shelves.keys.Nodup

theorem Tabular.setShelf (hc : c.Tabular) (h : Handle) (shelf : Shelf) :
    (c.setShelf h shelf).Tabular :=
  Table.nodup_keys_put hc h shelf

theorem Tabular.openSlot (hc : c.Tabular) (h : Handle) :
    (c.openSlot h).Tabular :=
  hc.setShelf h _

theorem Tabular.setEntry (hc : c.Tabular) (s : SlotId) (e : Entry) :
    (c.setEntry s e).Tabular :=
  hc.setShelf s.handle _

theorem Tabular.evict (hc : c.Tabular) (s : SlotId) : (c.evict s).Tabular := by
  unfold Cache.evict
  dsimp only
  split
  · exact hc.setShelf s.handle _
  · exact hc

theorem mem_handles_iff : h ∈ c.handles ↔ c.isListed h = true := by
  rw [handles, List.mem_filter, and_iff_right_iff_imp]
  intro hl
  cases hg : c.shelves.get? h with
  | some shelf => exact Table.mem_keys_of_get? hg
  | none => simp [isListed, shelf, Table.getD, hg] at hl

theorem nodup_handles (hc : c.Tabular) : c.handles.Nodup :=
  List.filter_sublist.nodup hc

theorem mem_slots_iff : s ∈ c.slots ↔ c.Listed s := by
  rw [slots, List.mem_filterMap]
  constructor
  · rintro ⟨h, -, hf⟩
    exact (find?_eq_some_iff.1 hf).2
  · intro hl
    refine ⟨s.handle, mem_handles_iff.2 ?_, hl⟩
    rw [isListed_eq_isSome, show c.find? s.handle = some s from hl]
    rfl

/-- The table lists one slot for each of its handles. -/
theorem map_handle_slots (c : Cache) :
    c.slots.map SlotId.handle = c.handles := by
  have hall : ∀ h ∈ c.handles, ∃ s, c.find? h = some s := by
    intro h hh
    have hl := mem_handles_iff.1 hh
    rw [isListed_eq_isSome] at hl
    exact Option.isSome_iff_exists.1 hl
  rw [slots]
  generalize c.handles = hs at hall ⊢
  induction hs with
  | nil => rfl
  | cons h hs ih =>
    obtain ⟨s, hs'⟩ := hall h List.mem_cons_self
    rw [List.filterMap_cons_some hs', List.map_cons,
      (find?_eq_some_iff.1 hs').1,
      ih fun h hh => hall h (List.mem_cons_of_mem _ hh)]

/-! ### The count of the entries -/

/-- To count entries that are online or offline counts each, and none as
loading. -/
theorem run_countSlots {ss : List SlotId} (stats : Stats)
    (hs : ∀ s ∈ ss, (c.entry s).state = .online ∨
      (c.entry s).state = .offline) :
    (((countSlots ss stats).run c).1).total = stats.total + ss.length ∧
      (((countSlots ss stats).run c).1).loading = stats.loading := by
  induction ss generalizing stats with
  | nil => exact ⟨rfl, rfl⟩
  | cons s ss ih =>
    have hcount : (stats.count (c.entry s).state).total = stats.total + 1 ∧
        (stats.count (c.entry s).state).loading = stats.loading := by
      rcases hs s List.mem_cons_self with h | h <;> rw [h]
      · exact ⟨by simp only [Stats.count, Stats.total]; omega, rfl⟩
      · exact ⟨by simp only [Stats.count, Stats.total]; omega, rfl⟩
    obtain ⟨htotal, hloading⟩ := ih (stats.count (c.entry s).state)
      fun s' hs' => hs s' (List.mem_cons_of_mem _ hs')
    have hrun : (countSlots (s :: ss) stats).run c =
        (countSlots ss (stats.count (c.entry s).state)).run c := rfl
    rw [hrun, htotal, hloading, hcount.1, hcount.2, List.length_cons]
    exact ⟨by omega, rfl⟩

theorem run_stats (hs : ∀ s, c.Listed s → (c.entry s).state = .online ∨
    (c.entry s).state = .offline) :
    ((stats.run c).1).total = c.handles.length ∧
      ((stats.run c).1).loading = 0 := by
  have hrun : stats.run c = (countSlots c.slots {}).run c := rfl
  obtain ⟨htotal, hloading⟩ := run_countSlots {}
    fun s hmem => hs s (mem_slots_iff.1 hmem)
  rw [hrun, htotal, hloading, ← map_handle_slots, List.length_map]
  exact ⟨Nat.zero_add _, rfl⟩

end ResourceHost.Cache
