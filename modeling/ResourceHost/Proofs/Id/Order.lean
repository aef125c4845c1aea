import ResourceHost.Id

/-!
# The order of handles

Handles are ordered like pairs of numbers, so no two of them stand level.  Hence
there is one ascending list of given handles, and sorting finds it in whatever
order they come.
-/

namespace ResourceHost.Handle

variable {a b d : Handle} {as bs : List Handle}

theorem lt_iff : a < b ↔ a.type.raw.toNat < b.type.raw.toNat ∨
    a.type.raw = b.type.raw ∧ a.name.raw.toNat < b.name.raw.toNat := by
  rw [← UInt64.lt_iff_toNat_lt, ← UInt64.lt_iff_toNat_lt]
  exact Iff.rfl

theorem lt_irrefl (a : Handle) : ¬ a < a := by
  rw [lt_iff]
  omega

theorem lt_trans (hab : a < b) (hbd : b < d) : a < d := by
  rw [lt_iff] at hab hbd ⊢
  rcases hab with hab | ⟨hab, hab'⟩ <;> rcases hbd with hbd | ⟨hbd, hbd'⟩
  · exact .inl (Nat.lt_trans hab hbd)
  · exact .inl (hbd ▸ hab)
  · exact .inl (hab ▸ hbd)
  · exact .inr ⟨hab.trans hbd, Nat.lt_trans hab' hbd'⟩

/-- Of two handles one comes first. -/
theorem eq_of_not_lt (hab : ¬ a < b) (hba : ¬ b < a) : a = b := by
  rw [lt_iff] at hab hba
  have htype : a.type.raw = b.type.raw := UInt64.toNat_inj.1 (by omega)
  have hname : a.name.raw = b.name.raw := by
    refine UInt64.toNat_inj.1 (Nat.le_antisymm ?_ ?_)
    · exact Nat.le_of_not_lt fun h => hba (.inr ⟨htype.symm, h⟩)
    · exact Nat.le_of_not_lt fun h => hab (.inr ⟨htype, h⟩)
  obtain ⟨⟨type⟩, ⟨name⟩⟩ := a
  obtain ⟨⟨type'⟩, ⟨name'⟩⟩ := b
  cases htype
  cases hname
  rfl

/-! ### Sorting -/

theorem sort_perm (hs : List Handle) : (sort hs).Perm hs :=
  List.mergeSort_perm hs _

theorem mem_sort {hs : List Handle} : a ∈ sort hs ↔ a ∈ hs :=
  (sort_perm hs).mem_iff

/-- No handle comes before one that is smaller. -/
theorem pairwise_sort (hs : List Handle) :
    (sort hs).Pairwise fun a b => ¬ b < a := by
  have hpairwise :=
    @List.pairwise_mergeSort _ (fun a b : Handle => decide (¬ b < a))
      (fun a b d hab hbd => ?_) (fun a b => ?_) hs
  · exact hpairwise.imp fun h => of_decide_eq_true h
  · refine decide_eq_true fun hda => ?_
    have hab := of_decide_eq_true hab
    have hbd := of_decide_eq_true hbd
    by_cases hbd' : b < d
    · exact hab (lt_trans hbd' hda)
    · obtain rfl : b = d := eq_of_not_lt hbd' hbd
      exact hab hda
  · rw [Bool.or_eq_true, decide_eq_true_eq, decide_eq_true_eq]
    by_cases hba : b < a
    · exact .inr fun hab => lt_irrefl a (lt_trans hab hba)
    · exact .inl hba

/-- Handles that are listed once each ascend when they are sorted. -/
theorem ascending_sort {hs : List Handle} (h : hs.Nodup) :
    (sort hs).Pairwise (· < ·) := by
  have hnodup : (sort hs).Pairwise (· ≠ ·) := (sort_perm hs).nodup_iff.2 h
  refine (List.Pairwise.and (pairwise_sort hs) hnodup).imp fun ⟨hle, hne⟩ => ?_
  exact Decidable.byContradiction fun hlt => hne (eq_of_not_lt hlt hle)

/-- There is one ascending list of given handles. -/
theorem eq_of_ascending (h : as.Perm bs) (ha : as.Pairwise (· < ·))
    (hb : bs.Pairwise (· < ·)) : as = bs :=
  h.eq_of_pairwise (fun _ _ _ _ hab hba =>
    absurd (lt_trans hab hba) (lt_irrefl _)) ha hb

/-- What is sorted does not depend on the order it came in. -/
theorem sort_eq_of_perm (h : as.Perm bs) : sort as = sort bs :=
  ((sort_perm as).trans (h.trans (sort_perm bs).symm)).eq_of_pairwise
    (fun _ _ _ _ hab hba => eq_of_not_lt hba hab) (pairwise_sort as)
    (pairwise_sort bs)

end ResourceHost.Handle
