import ResourceHost.Json.Value

/-!
# Maps sorted by key

Filing members one after another gives a list whose keys ascend, and a list
whose keys ascend already stays as it is.  The list holds each member whose key
does not come again, so that it does not matter in which order these are.
-/

namespace ResourceHost.Sorted

variable {α : Type} {k : String} {a : α} {m : String × α}
  {ms : List (String × α)}

/-- The keys ascend; no key comes twice. -/
def Ascending (ms : List (String × α)) : Prop :=
  ms.Pairwise fun m m' => m.1 < m'.1

instance (ms : List (String × α)) : Decidable (Ascending ms) :=
  inferInstanceAs (Decidable (ms.Pairwise _))

theorem lt_of_not_lt_of_ne {k k' : String} (h : ¬ k < k') (hne : k ≠ k') :
    k' < k :=
  Decidable.byContradiction fun h' =>
    hne (String.le_antisymm (String.not_lt.1 h') (String.not_lt.1 h))

/-- Whatever is filed came with the last member or was there before. -/
theorem mem_of_mem_insert (h : m ∈ insert k a ms) : m = (k, a) ∨ m ∈ ms := by
  induction ms with
  | nil => exact .inl (List.mem_singleton.1 h)
  | cons m' ms ih =>
    rw [insert] at h
    split at h
    · exact List.mem_cons.1 h
    · split at h
      · exact (List.mem_cons.1 h).imp_right (List.mem_cons_of_mem m')
      · cases List.mem_cons.1 h with
        | inl h => exact .inr (h ▸ List.mem_cons_self)
        | inr h => exact (ih h).imp_right (List.mem_cons_of_mem m')

theorem ascending_insert (h : Ascending ms) (k : String) (a : α) :
    Ascending (insert k a ms) := by
  induction ms with
  | nil => exact List.pairwise_singleton _ _
  | cons m ms ih =>
    obtain ⟨hm, hms⟩ := List.pairwise_cons.1 h
    rw [insert]
    split
    case isTrue hlt =>
      refine List.pairwise_cons.2
        ⟨List.forall_mem_cons.2 ⟨hlt, fun m' hm' => ?_⟩, h⟩
      exact String.lt_trans hlt (hm m' hm')
    case isFalse hlt =>
      split
      case isTrue he =>
        exact List.pairwise_cons.2 ⟨fun m' hm' => he ▸ hm m' hm', hms⟩
      case isFalse hne =>
        refine List.pairwise_cons.2 ⟨fun m' hm' => ?_, ih hms⟩
        cases mem_of_mem_insert hm' with
        | inl he => exact he ▸ lt_of_not_lt_of_ne hlt hne
        | inr hm' => exact hm m' hm'

/-- The keys of a sorted list ascend. -/
theorem ascending_ofMembers (ms : List (String × α)) :
    Ascending (ofMembers ms) := by
  suffices ∀ done, Ascending done →
      Ascending (ms.foldl (fun sorted m => insert m.1 m.2 sorted) done) from
        this [] .nil
  induction ms with
  | nil => exact fun _ h => h
  | cons m ms ih => exact fun done h => ih _ (ascending_insert h m.1 m.2)

/-- A sorted list holds none but the members that were sorted. -/
theorem mem_of_mem_ofMembers (h : m ∈ ofMembers ms) : m ∈ ms := by
  suffices ∀ done, m ∈ ms.foldl (fun sorted m => insert m.1 m.2 sorted) done →
      m ∈ done ∨ m ∈ ms from
    (this [] h).resolve_left List.not_mem_nil
  clear h
  induction ms with
  | nil => exact fun _ h => .inl h
  | cons m' ms ih =>
    intro done h
    cases ih _ h with
    | inl h =>
      cases mem_of_mem_insert h with
      | inl he => exact .inr (he ▸ List.mem_cons_self)
      | inr h => exact .inl h
    | inr h => exact .inr (List.mem_cons_of_mem m' h)

theorem insert_of_forall_lt (h : ∀ m ∈ ms, m.1 < k) (a : α) :
    insert k a ms = ms ++ [(k, a)] := by
  induction ms with
  | nil => rfl
  | cons m ms ih =>
    obtain ⟨hlt, hms⟩ := List.forall_mem_cons.1 h
    have hne : k ≠ m.1 := fun he => String.lt_irrefl k (he ▸ hlt)
    rw [insert, if_neg (String.lt_asymm hlt), if_neg hne, ih hms]
    rfl

/-- Members in ascending order stay as they are. -/
theorem ofMembers_of_ascending (h : Ascending ms) : ofMembers ms = ms := by
  suffices ∀ done, Ascending (done ++ ms) →
      ms.foldl (fun sorted m => insert m.1 m.2 sorted) done =
        done ++ ms from this [] h
  clear h
  induction ms with
  | nil => exact fun done _ => (List.append_nil done).symm
  | cons m ms ih =>
    intro done h
    have hlt : ∀ m' ∈ done, m'.1 < m.1 := fun m' hm' =>
      (List.pairwise_append.1 h).2.2 m' hm' m List.mem_cons_self
    rw [List.append_cons] at h ⊢
    rw [List.foldl_cons, insert_of_forall_lt hlt]
    exact ih _ h

/-! ### Which members count -/

/-- The members without those whose key comes again: of each key the last. -/
def lastOnly : List (String × α) → List (String × α)
  | [] => []
  | m :: ms => if m.1 ∈ ms.map (·.1) then lastOnly ms else m :: lastOnly ms

/-- To file a member is to put it in the place of all that has its key. -/
theorem insert_perm (h : Ascending ms) (k : String) (a : α) :
    (insert k a ms).Perm ((k, a) :: ms.filter (·.1 ≠ k)) := by
  induction ms with
  | nil => exact .refl _
  | cons m ms ih =>
    obtain ⟨hm, hms⟩ := List.pairwise_cons.1 h
    rw [insert]
    split
    case isTrue hlt =>
      have hothers : ∀ m' ∈ m :: ms, decide (m'.1 ≠ k) = true := by
        intro m' hm'
        rw [decide_eq_true_iff]
        rintro rfl
        cases List.mem_cons.1 hm' with
        | inl he => exact String.lt_irrefl _ (he ▸ hlt)
        | inr hm' => exact String.lt_asymm hlt (hm m' hm')
      rw [List.filter_eq_self.2 hothers]
    case isFalse hlt =>
      split
      case isTrue he =>
        have hothers : ∀ m' ∈ ms, decide (m'.1 ≠ k) = true := by
          intro m' hm'
          rw [decide_eq_true_iff]
          rintro rfl
          exact String.lt_irrefl _ (he ▸ hm m' hm')
        rw [List.filter_cons_of_neg (by simp [he]),
          List.filter_eq_self.2 hothers]
      case isFalse hne =>
        rw [List.filter_cons_of_pos (by simpa using Ne.symm hne)]
        exact ((ih hms).cons m).trans (.swap _ _ _)

/-- A sorted list holds of each key the last member. -/
theorem ofMembers_perm (ms : List (String × α)) :
    (ofMembers ms).Perm (lastOnly ms) := by
  -- What has been filed before counts as far as its keys do not come again.
  suffices ∀ done, Ascending done →
      (ms.foldl (fun sorted m => insert m.1 m.2 sorted) done).Perm
        (lastOnly ms ++ done.filter (·.1 ∉ ms.map (·.1))) by
    have hnothing := this [] .nil
    rwa [List.filter_nil, List.append_nil] at hnothing
  induction ms with
  | nil =>
    intro done _
    have hall : done.filter (·.1 ∉ ([] : List (String × α)).map (·.1)) = done :=
      List.filter_eq_self.2 fun _ _ => rfl
    rw [lastOnly, List.nil_append, hall]
    exact .refl done
  | cons m ms ih =>
    intro done h
    rw [List.foldl_cons]
    refine (ih _ (ascending_insert h m.1 m.2)).trans ?_
    have hfiled := ((insert_perm h m.1 m.2).filter fun m' => m'.1 ∉
        ms.map (·.1)).append_left
      (lastOnly ms)
    refine hfiled.trans ?_
    have hbefore : (done.filter (·.1 ≠ m.1)).filter (·.1 ∉ ms.map (·.1)) =
        done.filter (·.1 ∉ (m :: ms).map (·.1)) := by
      rw [List.filter_filter]
      refine List.filter_congr fun m' _ => ?_
      rw [← Bool.decide_and]
      exact decide_eq_decide.2
        (by rw [List.map_cons, List.mem_cons, not_or, and_comm])
    rw [lastOnly]
    split
    case isTrue hm => rw [List.filter_cons_of_neg (by simpa using hm), hbefore]
    case isFalse hm =>
      rw [List.filter_cons_of_pos (by simpa using hm), hbefore]
      exact List.perm_middle

/-- There is one list of some members in ascending order. -/
theorem Ascending.eq_of_perm {ms ms' : List (String × α)} (h : Ascending ms)
    (h' : Ascending ms') (hperm : ms.Perm ms') : ms = ms' :=
  hperm.eq_of_pairwise (fun _ _ _ _ hlt hgt => absurd hgt (String.lt_asymm hlt))
    h h'

/-- The order of members does not matter, nor do those whose key comes again. -/
theorem ofMembers_eq_of_perm {ms ms' : List (String × α)}
    (h : (lastOnly ms).Perm (lastOnly ms')) : ofMembers ms = ofMembers ms' :=
  (ascending_ofMembers ms).eq_of_perm (ascending_ofMembers ms')
    ((ofMembers_perm ms).trans (h.trans (ofMembers_perm ms').symm))

end ResourceHost.Sorted
