/-!
# Tables

A finite map kept as a list of pairs, in the order in which the keys were
first entered.  Every operation is stated against the lookup view `get?`:
what a `put` or a `drop` makes of it at the key itself and at every other key.
-/

namespace ResourceHost

/-- Pairs of a key and what is filed under it.  Of two pairs with one key the
earlier counts. -/
structure Table (κ α : Type) where
  pairs : List (κ × α) := []

namespace Table

variable {κ α : Type} [DecidableEq κ]

/-- The table without pairs. -/
def empty : Table κ α := ⟨[]⟩

instance : Inhabited (Table κ α) := ⟨empty⟩

/-- What is filed under a key in a list of pairs. -/
def find (k : κ) : List (κ × α) → Option α
  | [] => none
  | (k', a) :: rest => if k' = k then some a else find k rest

/-- Files `a` under `k`: in place if the key is known, at the end if not. -/
def enter (k : κ) (a : α) : List (κ × α) → List (κ × α)
  | [] => [(k, a)]
  | (k', b) :: rest =>
    if k' = k then (k', a) :: rest else (k', b) :: enter k a rest

/-- What is filed under `k`. -/
def get? (t : Table κ α) (k : κ) : Option α := find k t.pairs

/-- What is filed under `k`, or `fallback`. -/
def getD (t : Table κ α) (k : κ) (fallback : α) : α := (t.get? k).getD fallback

/-- Whether anything is filed under `k`. -/
def contains (t : Table κ α) (k : κ) : Bool := (t.get? k).isSome

/-- Files `a` under `k`, over what was there. -/
def put (t : Table κ α) (k : κ) (a : α) : Table κ α := ⟨enter k a t.pairs⟩

/-- Takes out everything filed under `k`. -/
def drop (t : Table κ α) (k : κ) : Table κ α :=
  ⟨t.pairs.filter fun p => p.1 ≠ k⟩

/-- The keys, in the order of their entry. -/
def keys (t : Table κ α) : List κ := t.pairs.map (·.1)

/-- What is filed, in the order of the keys. -/
def values (t : Table κ α) : List α := t.pairs.map (·.2)

/-- The number of pairs. -/
def size (t : Table κ α) : Nat := t.pairs.length

/-! ### The lookup view -/

theorem get?_empty (k : κ) : (empty : Table κ α).get? k = none := rfl

theorem find_enter_self (k : κ) (a : α) (ps : List (κ × α)) :
    find k (enter k a ps) = some a := by
  induction ps with
  | nil => simp [enter, find]
  | cons p rest ih =>
    obtain ⟨k', b⟩ := p
    by_cases h : k' = k <;> simp [enter, find, h, ih]

theorem find_enter_of_ne {k l : κ} (h : l ≠ k) (a : α) (ps : List (κ × α)) :
    find l (enter k a ps) = find l ps := by
  induction ps with
  | nil => simp [enter, find, Ne.symm h]
  | cons p rest ih =>
    obtain ⟨k', b⟩ := p
    by_cases hk : k' = k
    · subst hk
      simp [enter, find, Ne.symm h]
    · simp only [enter, hk, if_false, find, ih]

@[simp] theorem get?_put_self (t : Table κ α) (k : κ) (a : α) :
    (t.put k a).get? k = some a :=
  find_enter_self k a t.pairs

theorem get?_put_of_ne (t : Table κ α) {k l : κ} (h : l ≠ k) (a : α) :
    (t.put k a).get? l = t.get? l :=
  find_enter_of_ne h a t.pairs

theorem enter_of_find {k : κ} {a : α} {ps : List (κ × α)}
    (h : find k ps = some a) : enter k a ps = ps := by
  induction ps with
  | nil => cases h
  | cons p rest ih =>
    obtain ⟨k', b⟩ := p
    by_cases hk : k' = k
    · subst hk
      rw [find, if_pos rfl] at h
      cases h
      rw [enter, if_pos rfl]
    · rw [find, if_neg hk] at h
      rw [enter, if_neg hk, ih h]

/-- To file again what is filed changes nothing. -/
theorem put_of_get? {t : Table κ α} {k : κ} {a : α} (h : t.get? k = some a) :
    t.put k a = t := by
  rw [put, enter_of_find h]

theorem enter_enter (k : κ) (a b : α) (ps : List (κ × α)) :
    enter k b (enter k a ps) = enter k b ps := by
  induction ps with
  | nil => simp [enter]
  | cons p rest ih =>
    obtain ⟨k', a'⟩ := p
    by_cases h : k' = k <;> simp [enter, h, ih]

/-- Of two things filed under one key the later counts. -/
theorem put_put (t : Table κ α) (k : κ) (a b : α) :
    (t.put k a).put k b = t.put k b := by
  rw [put, put, enter_enter]
  rfl

theorem find_filter_self (k : κ) (ps : List (κ × α)) :
    find k (ps.filter fun p => p.1 ≠ k) = none := by
  induction ps with
  | nil => rfl
  | cons p rest ih =>
    obtain ⟨k', b⟩ := p
    by_cases h : k' = k
    · simpa [h] using ih
    · simpa [h, find] using ih

theorem find_filter_of_ne {k l : κ} (h : l ≠ k) (ps : List (κ × α)) :
    find l (ps.filter fun p => p.1 ≠ k) = find l ps := by
  induction ps with
  | nil => rfl
  | cons p rest ih =>
    obtain ⟨k', b⟩ := p
    by_cases hk : k' = k
    · subst hk
      have hl : k' ≠ l := Ne.symm h
      simpa [find, hl] using ih
    · by_cases hl : k' = l
      · subst hl
        simp [find, hk]
      · simpa [hk, find, hl] using ih

@[simp] theorem get?_drop_self (t : Table κ α) (k : κ) :
    (t.drop k).get? k = none :=
  find_filter_self k t.pairs

theorem get?_drop_of_ne (t : Table κ α) {k l : κ} (h : l ≠ k) :
    (t.drop k).get? l = t.get? l :=
  find_filter_of_ne h t.pairs

/-! ### The keys -/

theorem keys_enter (k : κ) (a : α) (ps : List (κ × α)) :
    (enter k a ps).map (·.1) =
      if k ∈ ps.map (·.1) then ps.map (·.1) else ps.map (·.1) ++ [k] := by
  induction ps with
  | nil => rfl
  | cons p rest ih =>
    obtain ⟨k', b⟩ := p
    by_cases h : k' = k
    · simp [enter, h]
    · have hne : k ≠ k' := fun heq => h heq.symm
      simp only [enter, h, if_false, List.map_cons, ih, List.mem_cons, hne,
        false_or]
      split <;> simp

/-- A key is entered once. -/
theorem nodup_keys_put {t : Table κ α} (h : t.keys.Nodup) (k : κ) (a : α) :
    (t.put k a).keys.Nodup := by
  rw [keys, put, keys_enter]
  split
  · exact h
  · rename_i hk
    refine List.nodup_append.2 ⟨h, by simp, ?_⟩
    rintro x hx y hy rfl
    rw [List.mem_singleton] at hy
    subst hy
    exact hk hx

theorem mem_pairs_of_get? {t : Table κ α} {k : κ} {a : α}
    (h : t.get? k = some a) : (k, a) ∈ t.pairs := by
  rw [get?] at h
  generalize t.pairs = ps at h ⊢
  induction ps with
  | nil => cases h
  | cons p rest ih =>
    obtain ⟨k', b⟩ := p
    by_cases hk : k' = k
    · rw [find, if_pos hk] at h
      cases h
      simp [hk]
    · rw [find, if_neg hk] at h
      exact List.mem_cons_of_mem _ (ih h)

theorem mem_keys_of_get? {t : Table κ α} {k : κ} {a : α}
    (h : t.get? k = some a) : k ∈ t.keys :=
  List.mem_map.2 ⟨(k, a), mem_pairs_of_get? h, rfl⟩

end Table

end ResourceHost
