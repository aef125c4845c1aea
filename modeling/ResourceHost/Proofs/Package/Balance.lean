import ResourceHost.Package.Loading
import ResourceHost.Proofs.Threads.Alone

/-!
# What a package takes it gives back

Loading a package adds to the count of each handle as many references as the
manifest lists the handle, over all of its groups; unloading it takes as many
away, group by group, and evicts what has none left.  Both are read off what is
looked up for each handle, and both go along lists of handles: what holds of two
lists holds of their concatenation.

Both run alone here, as a thread does that moves while the others rest: see
`Machine.alone`.
-/

namespace ResourceHost

/-! ### Counts that grow and shrink -/

namespace Entry

/-- What `n` loads make of what is looked up: those who find an entry share it,
and the first who finds none loads it. -/
inductive Gains : Nat → Option Entry → Option Entry → Prop where
  | absent : Gains 0 none none
  | joined (n : Nat) (e : Entry) :
      Gains n (some e) (some (e.counting (e.refCount + n)))
  | loaded {n : Nat} {e : Entry} (hd : e.Loaded) (hs : e.state = .online)
      (hn : e.refCount = n + 1) : Gains (n + 1) none (some e)

/-- An entry with `n` references less, as far as it has them. -/
def lessening (n : Nat) (e : Entry) : Entry := e.counting (e.refCount - n)

/-- What is left of an entry when `n` references are dropped and it is evicted
with the last. -/
def dropping (n : Nat) (e : Entry) : Option Entry :=
  if n = 0 then some e else if n < e.refCount then some (e.lessening n)
  else none

variable {n k : Nat} {a b d : Option Entry} {e : Entry}

theorem Gains.refl (a : Option Entry) : Gains 0 a a := by
  cases a with
  | none => exact .absent
  | some e => exact .joined 0 e

theorem Gains.eq_joined (h : Gains n (some e) b) :
    b = some (e.counting (e.refCount + n)) := by
  cases h
  rfl

theorem Gains.trans (h : Gains n a b) (h' : Gains k b d) :
    Gains (n + k) a d := by
  cases h with
  | absent =>
    rw [Nat.zero_add]
    exact h'
  | joined n e =>
    cases h' with
    | joined k =>
      have hcount : e.refCount + (n + k) = e.refCount + n + k := by omega
      rw [counting_counting, refCount_counting, ← hcount]
      exact .joined (n + k) e
  | @loaded n e hd hs hn =>
    cases h' with
    | joined k =>
      have hcount : n + 1 + k = n + k + 1 := by omega
      rw [hcount]
      refine .loaded (hd.counting _) hs ?_
      rw [refCount_counting, hn, hcount]

@[simp] theorem lessening_zero (e : Entry) : e.lessening 0 = e := rfl

theorem lessening_lessening (n k : Nat) (e : Entry) :
    (e.lessening n).lessening k = e.lessening (n + k) := by
  simp [lessening, Nat.sub_sub]

/-- To drop some references and then others is to drop them all. -/
theorem dropping_bind (n k : Nat) (e : Entry) :
    (e.dropping n).bind (dropping k) = e.dropping (n + k) := by
  by_cases hn : n = 0
  · simp [dropping, hn]
  · by_cases hlt : n < e.refCount
    · by_cases hk : k = 0
      · simp [dropping, hn, hlt, hk]
      · have hiff : k < (e.lessening n).refCount ↔ n + k < e.refCount := by
          simp only [lessening, refCount_counting]
          omega
        simp [dropping, hn, hlt, hk, hiff, lessening_lessening]
    · have hle : ¬ n + k < e.refCount := by omega
      simp [dropping, hn, hlt, hle]

/-- What somebody held before is left as it was. -/
theorem Gains.dropping_of_held (h : Gains n (some e) b) (he : 1 ≤ e.refCount) :
    b.bind (dropping n) = some e := by
  rw [h.eq_joined]
  by_cases hn : n = 0
  · subst hn
    rfl
  · have hlt : n < e.refCount + n := by omega
    simp [dropping, hn, hlt, lessening]

/-- What nobody held before is evicted, if it was loaded at all. -/
theorem Gains.dropping_of_idle (h : Gains n a b) (hn : n ≠ 0)
    (ha : ∀ e, a = some e → e.refCount = 0) : b.bind (dropping n) = none := by
  cases h with
  | absent => exact absurd rfl hn
  | joined n e => simp [dropping, hn, ha e rfl]
  | loaded hd hs hr => simp [dropping, hr]

theorem Gains.dropping_of_zero (h : Gains 0 a b) : b.bind (dropping 0) = a := by
  cases h with
  | absent => rfl
  | joined n e => rfl

end Entry

/-! ### Along lists of handles -/

namespace Cache

/-- A reference has been taken to each of some handles. -/
structure Took (hs : List Handle) (c c' : Cache) : Prop where
  calm : c'.Calm
  kind? : ∀ t, c'.kind? t = c.kind? t
  gains : ∀ h, Entry.Gains (hs.count h) (c.lookup? h) (c'.lookup? h)

/-- A reference to each of some handles has been dropped, and what has none left
is evicted. -/
structure Dropped (hs : List Handle) (c c' : Cache) : Prop where
  calm : c'.Calm
  lookup? : ∀ h, c'.lookup? h = (c.lookup? h).bind (Entry.dropping (hs.count h))

variable {c c₁ c' : Cache} {hs hs' : List Handle}

theorem Took.nil (hc : c.Calm) : Took [] c c :=
  ⟨hc, fun _ => rfl, fun _ => .refl _⟩

theorem Took.append (h : Took hs c c₁) (h' : Took hs' c₁ c') :
    Took (hs ++ hs') c c' := by
  refine ⟨h'.calm, fun t => (h'.kind? t).trans (h.kind? t), fun x => ?_⟩
  rw [List.count_append]
  exact (h.gains x).trans (h'.gains x)

theorem Dropped.nil (hc : c.Calm) : Dropped [] c c := by
  refine ⟨hc, fun h => ?_⟩
  cases c.lookup? h <;> rfl

theorem Dropped.append (h : Dropped hs c c₁) (h' : Dropped hs' c₁ c') :
    Dropped (hs ++ hs') c c' := by
  refine ⟨h'.calm, fun x => ?_⟩
  rw [h'.lookup?, h.lookup?, List.count_append]
  cases c.lookup? x with
  | none => rfl
  | some e => exact Entry.dropping_bind _ _ e

/-! ### Loading -/

theorem Took.of_acquire (hc : c.Calm) {h : Handle} (hreg : c.Registered h.type)
    {k : Kind} (hrun : (Request.acquire h k).run c = (.ok (), c')) :
    Took [h] c c' := by
  have htook : ∀ {e? : Option Entry}, c'.Calm → c.Alters h e? c' →
      Entry.Gains 1 (c.lookup? h) e? → Took [h] c c' := by
    intro e? hc' ha hg
    refine ⟨hc', ha.kind?, fun x => ?_⟩
    by_cases hx : x = h
    · subst hx
      rw [ha.self, List.count_singleton_self]
      exact hg
    · rw [ha.others x hx, List.count_eq_zero_of_not_mem (by simpa using hx)]
      exact .refl _
  cases hl : c.lookup? h with
  | some e =>
    obtain ⟨c'', hrun', hc', ha⟩ := hc.run_acquire_of_some hl k
    cases hrun.symm.trans hrun'
    refine htook hc' ha ?_
    rw [hl]
    exact .joined 1 e
  | none =>
    obtain ⟨o, c'', hrun', hc', hcase⟩ := hc.run_acquire_of_none hl hreg k
    cases hrun.symm.trans hrun'
    rcases hcase with ⟨⟨f, hf⟩, -⟩ | ⟨-, e, hd, hs, hn, ha, -⟩
    · cases hf
    · refine htook hc' ha ?_
      rw [hl]
      exact .loaded hd hs hn

theorem Took.of_acquireAll {t : TypeId} {k : Kind} {ns : List NameId}
    (hc : c.Calm) (hreg : c.Registered t)
    (hrun : (acquireAll t k ns).run c = (.ok (), c')) :
    Took (ns.map (Handle.mk t)) c c' := by
  induction ns generalizing c with
  | nil =>
    cases hrun
    exact .nil hc
  | cons n ns ih =>
    obtain ⟨⟨⟩, c₁, hone, hrest⟩ := Program.run_orStop_eq_ok hrun
    have htook : Took [⟨t, n⟩] c c₁ := .of_acquire hc hreg hone
    have hreg₁ : c₁.Registered t := by
      rw [Registered, htook.kind?]
      exact hreg
    exact htook.append (ih htook.calm hreg₁ hrest)

theorem Took.of_load {t : TypeId} {ns : List NameId} (hc : c.Calm)
    (hrun : (load t ns).run c = (.ok (), c')) :
    Took (ns.map (Handle.mk t)) c c' := by
  unfold load at hrun
  split at hrun
  · rename_i hempty
    cases hrun
    rw [List.isEmpty_iff.1 hempty]
    exact .nil hc
  · obtain ⟨k, c₁, hkind, hrest⟩ := Program.run_orStop_eq_ok hrun
    rw [run_kindOf] at hkind
    cases hk : c.kind? t with
    | none =>
      rw [hk] at hkind
      cases hkind
    | some k' =>
      rw [hk] at hkind
      cases hkind
      exact .of_acquireAll hc (Option.isSome_iff_exists.2 ⟨k, hk⟩) hrest

theorem Took.of_loadGroups {gs : List Package.Group} (hc : c.Calm)
    (hrun : (Package.loadGroups gs).run c = (.ok (), c')) :
    Took (Package.Manifest.handles ⟨gs⟩) c c' := by
  induction gs generalizing c with
  | nil =>
    cases hrun
    exact .nil hc
  | cons g gs ih =>
    obtain ⟨⟨⟩, c₁, hone, hrest⟩ := Program.run_orStop_eq_ok hrun
    have htook : Took (g.names.map (Handle.mk g.type)) c c₁ := .of_load hc hone
    exact htook.append (ih htook.calm hrest)

/-! ### Unloading -/

/-- A release that runs alone lowers the count; it tells whether any reference
is left. -/
theorem Calm.exists_of_release (hc : c.Calm) (h : Handle) :
    ∃ (a : Except Failure Nat) (c' : Cache),
      (release h).run c = (a, c') ∧ c'.Calm ∧
      (∀ x, c'.lookup? x = (c.lookup? x).map (Entry.lessening ([h].count x))) ∧
      ((∃ left, a = .ok (left + 1)) ↔
        ∃ e, c.lookup? h = some e ∧ 1 < e.refCount) := by
  have hothers : ∀ (c' : Cache) x, x ≠ h → c'.lookup? x = c.lookup? x →
      c'.lookup? x = (c.lookup? x).map (Entry.lessening ([h].count x)) := by
    intro c' x hx heq
    rw [heq, List.count_eq_zero_of_not_mem (by simpa using hx)]
    cases c.lookup? x <;> rfl
  cases hl : c.lookup? h with
  | none =>
    refine ⟨_, _, hc.run_release_of_none hl, hc, fun x => ?_,
      iff_of_false nofun nofun⟩
    by_cases hx : x = h
    · subst hx
      rw [hl]
      rfl
    · exact hothers c x hx rfl
  | some e =>
    obtain ⟨c', hrun, hc', ha⟩ := hc.run_release_of_some hl
    refine ⟨_, c', hrun, hc', fun x => ?_, ?_⟩
    · by_cases hx : x = h
      · subst hx
        rw [ha.self, hl, List.count_singleton_self]
        rfl
      · exact hothers c' x hx (ha.others x hx)
    · constructor
      · rintro ⟨left, hleft⟩
        refine ⟨e, rfl, ?_⟩
        have hsub : e.refCount - 1 = left + 1 := Except.ok.inj hleft
        omega
      · rintro ⟨e', he', hlt⟩
        cases he'
        refine ⟨e.refCount - 2, ?_⟩
        congr 1
        omega

/-- One more name is released: it is unused if no reference is left. -/
theorem run_releaseAll_cons {t : TypeId} {n : NameId} (ns unused : List NameId)
    {a : Except Failure Nat} (hrun : (release ⟨t, n⟩).run c = (a, c₁)) :
    ((∃ left, a = .ok (left + 1)) ∧
      (Package.releaseAll t unused (n :: ns)).run c =
        (Package.releaseAll t unused ns).run c₁) ∨
    ((¬ ∃ left, a = .ok (left + 1)) ∧
      (Package.releaseAll t unused (n :: ns)).run c =
        (Package.releaseAll t (n :: unused) ns).run c₁) := by
  rw [Package.releaseAll, Program.run_bind, hrun]
  match a with
  | .ok 0 => exact .inr ⟨nofun, rfl⟩
  | .ok (left + 1) => exact .inl ⟨⟨left, rfl⟩, rfl⟩
  | .error f => exact .inr ⟨nofun, rfl⟩

/-- As many references to a handle as some releases drop are not fewer than all
there are. -/
def Spent (c : Cache) (hs : List Handle) (h : Handle) : Prop :=
  h ∈ hs ∧ ∀ e, c.lookup? h = some e → e.refCount ≤ hs.count h

/-- Whether a handle is spent is settled by its last release. -/
theorem spent_cons {h : Handle} (hone : ∀ x, c₁.lookup? x =
      (c.lookup? x).map (Entry.lessening ([h].count x))) (x : Handle) :
    c.Spent (h :: hs) x ↔
      c₁.Spent hs x ∨ x = h ∧ ¬ ∃ e, c.lookup? h = some e ∧ 1 < e.refCount := by
  by_cases hx : x = h
  · subst hx
    have hone' := hone x
    rw [List.count_singleton_self] at hone'
    simp only [Spent, hone', List.count_cons_self, List.mem_cons, true_or,
      true_and]
    cases c.lookup? x with
    | none => simp
    | some e =>
      have hmem : x ∈ hs ↔ 0 < hs.count x := List.count_pos_iff.symm
      simp only [Option.map_some, Option.some.injEq, forall_eq',
        Entry.lessening, Entry.refCount_counting, exists_eq_left', hmem]
      omega
  · have hone' : c₁.lookup? x = c.lookup? x := by
      rw [hone x, List.count_eq_zero_of_not_mem (by simpa using hx)]
      cases c.lookup? x <;> rfl
    simp only [Spent, hone', List.mem_cons, hx, false_or, false_and, or_false,
      List.count_cons_of_ne (Ne.symm hx)]

theorem Spent.dropping {x : Handle} (hx : c.Spent hs x) :
    (c.lookup? x).bind (Entry.dropping (hs.count x)) = none := by
  cases hl : c.lookup? x with
  | none => rfl
  | some e =>
    have hlisted : hs.count x ≠ 0 :=
      Nat.pos_iff_ne_zero.1 (List.count_pos_iff.2 hx.1)
    have hle : e.refCount ≤ hs.count x := hx.2 e hl
    simp [Entry.dropping, hlisted, hle]

theorem dropping_of_not_spent {x : Handle} (hx : ¬ c.Spent hs x) :
    (c.lookup? x).bind (Entry.dropping (hs.count x)) =
      (c.lookup? x).map (Entry.lessening (hs.count x)) := by
  cases hl : c.lookup? x with
  | none => rfl
  | some e =>
    by_cases hz : hs.count x = 0
    · rw [hz]
      rfl
    · have hlt : hs.count x < e.refCount := by
        refine Nat.lt_of_not_le fun hle => hx ⟨List.count_pos_iff.1 (by omega),
          fun e' he' => ?_⟩
        rw [hl] at he'
        cases he'
        exact hle
      simp [Entry.dropping, hz, hlt]

/-- Releasing names of a type drops a reference to each, and finds out which
handles are spent. -/
theorem Calm.exists_of_releaseAll (hc : c.Calm) (t : TypeId)
    (ns unused : List NameId) :
    ∃ (left : List NameId) (c' : Cache),
      (Package.releaseAll t unused ns).run c = (left, c') ∧ c'.Calm ∧
      (∀ x, c'.lookup? x =
        (c.lookup? x).map (Entry.lessening ((ns.map (Handle.mk t)).count x))) ∧
      ∀ n, n ∈ left ↔ n ∈ unused ∨ c.Spent (ns.map (Handle.mk t)) ⟨t, n⟩ := by
  induction ns generalizing c unused with
  | nil =>
    refine ⟨unused.reverse, c, rfl, hc, fun x => ?_, fun n => ?_⟩
    · cases c.lookup? x <;> rfl
    · simp [Spent]
  | cons n ns ih =>
    obtain ⟨a, c₁, hrun, hc₁, hone, hmore⟩ := hc.exists_of_release ⟨t, n⟩
    have hcount : ∀ (c' : Cache) x, c'.lookup? x =
        (c₁.lookup? x).map (Entry.lessening ((ns.map (Handle.mk t)).count x)) →
        c'.lookup? x = (c.lookup? x).map
          (Entry.lessening (((n :: ns).map (Handle.mk t)).count x)) := by
      intro c' x hx
      have hsplit : (n :: ns).map (Handle.mk t) =
          [⟨t, n⟩] ++ ns.map (Handle.mk t) := rfl
      rw [hx, hone, hsplit, List.count_append]
      cases c.lookup? x with
      | none => rfl
      | some e => exact congrArg some (Entry.lessening_lessening _ _ e)
    have hspent : ∀ n', c.Spent ((n :: ns).map (Handle.mk t)) ⟨t, n'⟩ ↔
        c₁.Spent (ns.map (Handle.mk t)) ⟨t, n'⟩ ∨
          n' = n ∧ ¬ ∃ e, c.lookup? ⟨t, n⟩ = some e ∧ 1 < e.refCount := by
      intro n'
      rw [List.map_cons, spent_cons hone]
      simp
    rcases run_releaseAll_cons ns unused hrun with ⟨hsome, heq⟩ | ⟨hnone, heq⟩
    · obtain ⟨left, c', hrest, hc', hlook, hmem⟩ := ih hc₁ unused
      refine ⟨left, c', heq.trans hrest, hc', fun x => hcount c' x (hlook x),
        fun n' => ?_⟩
      rw [hmem, hspent]
      have hheld := hmore.1 hsome
      simp [hheld]
    · obtain ⟨left, c', hrest, hc', hlook, hmem⟩ := ih hc₁ (n :: unused)
      refine ⟨left, c', heq.trans hrest, hc', fun x => hcount c' x (hlook x),
        fun n' => ?_⟩
      have hfree : ¬ ∃ e, c.lookup? ⟨t, n⟩ = some e ∧ 1 < e.refCount :=
        fun hheld => hnone (hmore.2 hheld)
      rw [hmem, hspent, List.mem_cons, and_iff_left hfree, or_assoc, or_comm,
        or_assoc]

/-- Names of a type are evicted, whatever their references. -/
theorem Calm.exists_of_unloadAll (hc : c.Calm) (t : TypeId) (ns : List NameId) :
    ∃ c', (unloadAll t ns).run c = (.ok (), c') ∧ c'.Calm ∧
      ∀ x, c'.lookup? x =
        if x ∈ ns.map (Handle.mk t) then none else c.lookup? x := by
  induction ns generalizing c with
  | nil => exact ⟨c, rfl, hc, fun x => by simp⟩
  | cons n ns ih =>
    obtain ⟨c₁, hrun, hc₁, ha⟩ := hc.run_unload ⟨t, n⟩
    obtain ⟨c', hrest, hc', hlook⟩ := ih hc₁
    refine ⟨c', (Program.run_orStop_of_ok hrun).trans hrest, hc', fun x => ?_⟩
    rw [hlook, List.map_cons]
    by_cases hx : x = ⟨t, n⟩
    · subst hx
      simp [ha.self]
    · simp [ha.others x hx, hx]

/-- Dropping the references to a group and evicting what is spent. -/
theorem Calm.exists_of_unloadGroup (hc : c.Calm) (t : TypeId)
    (ns : List NameId) :
    ∃ (left : List NameId) (c₁ c' : Cache),
      (Package.releaseAll t [] ns).run c = (left, c₁) ∧
      (unloadAll t left).run c₁ = (.ok (), c') ∧
      Dropped (ns.map (Handle.mk t)) c c' := by
  obtain ⟨left, c₁, hrun, hc₁, hlook₁, hmem⟩ := hc.exists_of_releaseAll t ns []
  obtain ⟨c', hrun', hc', hlook⟩ := hc₁.exists_of_unloadAll t left
  refine ⟨left, c₁, c', hrun, hrun', hc', fun x => ?_⟩
  have hspent : x ∈ left.map (Handle.mk t) ↔
      c.Spent (ns.map (Handle.mk t)) x := by
    rw [List.mem_map]
    constructor
    · rintro ⟨n, hn, rfl⟩
      exact ((hmem n).1 hn).resolve_left List.not_mem_nil
    · intro hx
      obtain ⟨n, -, rfl⟩ := List.mem_map.1 hx.1
      exact ⟨n, (hmem n).2 (.inr hx), rfl⟩
  rw [hlook, hlook₁]
  by_cases hx : c.Spent (ns.map (Handle.mk t)) x
  · rw [if_pos (hspent.2 hx), hx.dropping]
  · rw [if_neg (mt hspent.1 hx), dropping_of_not_spent hx]

/-- Groups can always be unloaded. -/
theorem Calm.exists_of_unloadGroups (hc : c.Calm) (gs : List Package.Group) :
    ∃ c', (Package.unloadGroups gs).run c = (.ok (), c') ∧
      Dropped (Package.Manifest.handles ⟨gs⟩) c c' := by
  induction gs generalizing c with
  | nil => exact ⟨c, rfl, .nil hc⟩
  | cons g gs ih =>
    obtain ⟨left, c₁, c₂, hrel, hunl, hdropped⟩ :=
      hc.exists_of_unloadGroup g.type g.names
    obtain ⟨c', hrest, hdropped'⟩ := ih hdropped.calm
    refine ⟨c', ?_, hdropped.append hdropped'⟩
    rw [Package.unloadGroups, Program.run_bind, hrel]
    exact (Program.run_orStop_of_ok hunl).trans hrest

/-! ### The manifest -/

/-- A manifest is found where an entry is online that holds one. -/
theorem Calm.run_manifest (hc : c.Calm) (p : NameId) :
    (Package.manifest p).run c =
      ((c.lookup? (Package.handle p)).elim
        (.error (.notLoaded (Package.handle p)))
        (fun e => match e.get (Package.handle p) with
          | .ok r => match r.content.asPackage? with
            | some m => .ok m
            | none => .error (.wrongShape (Package.handle p) .package)
          | .error f => .error f), c) := by
  rw [Package.manifest, getPackage, Program.run_orStop, hc.run_get]
  cases c.lookup? (Package.handle p) with
  | none => rfl
  | some e =>
    dsimp only [Option.elim_some]
    cases e.get (Package.handle p) with
    | error f => rfl
    | ok r => cases hm : r.content.asPackage? <;> simp [hm]

/-- Loading does not change the manifest that was found. -/
theorem Took.run_manifest (ht : Took hs c c') (hc : c.Calm) {p : NameId}
    {m : Package.Manifest} (hm : (Package.manifest p).run c = (.ok m, c)) :
    (Package.manifest p).run c' = (.ok m, c') := by
  have hgains := ht.gains (Package.handle p)
  rw [hc.run_manifest] at hm
  rw [ht.calm.run_manifest]
  cases hl : c.lookup? (Package.handle p) with
  | none =>
    rw [hl] at hm
    cases hm
  | some e =>
    -- The entry is as it was but for its count.
    rw [hl] at hm hgains
    rw [hgains.eq_joined, Option.elim_some, Entry.get_counting]
    have hfst := congrArg Prod.fst hm
    exact Prod.ext hfst rfl

end Cache

/-! ### Packages -/

namespace Package

open Cache

variable {α : Type} {conduct : Conduct} {m m₀ : Machine α} {es : List Event}

/-- What scheduling a package comes to: the manifest is found, and its groups
are loaded. -/
theorem exists_of_schedule {c c₁ : Cache} (hc : c.Calm) {p : NameId}
    {o : Except Failure Unit} (hrun : (schedule p).run c = (.ok o, c₁)) :
    ∃ man, (manifest p).run c = (.ok man, c) ∧
      (loadGroups man.groups).run c = (o, c₁) := by
  obtain ⟨man, c', hman, hrest⟩ := Program.run_orStop_eq_ok hrun
  have hsame : c' = c := by
    rw [hc.run_manifest] at hman
    exact (congrArg Prod.snd hman).symm
  subst hsame
  refine ⟨man, hman, ?_⟩
  rw [Program.run_bind] at hrest
  cases hload : (loadGroups man.groups).run c' with
  | mk o' c'' =>
    rw [hload] at hrest
    cases hrest
    rfl

/-- From any calm moment of any run: where a package has loaded without failure
it can be unloaded, and then whatever had a reference before is as it was,
whatever is listed and had none is gone, and what is not listed is as it was. -/
theorem unload_balances_load (h₀ : m₀.Starts conduct)
    (hr : Machine.Course conduct m₀ es m)
    (hrest : ∀ t ∈ m.threads, t.atRest = true) {p : NameId} {c₁ : Cache}
    (hload : (schedule p).run m.cache = (.ok (.ok ()), c₁)) :
    ∃ (man : Manifest) (c₂ : Cache),
      (manifest p).run m.cache = (.ok man, m.cache) ∧
      (unload p).run c₁ = (.ok (), c₂) ∧
      (∀ h e, m.cache.lookup? h = some e → 1 ≤ e.refCount →
        c₂.lookup? h = some e) ∧
      (∀ h ∈ man.handles, (∀ e, m.cache.lookup? h = some e → e.refCount = 0) →
        c₂.lookup? h = none) ∧
      ∀ h ∉ man.handles, c₂.lookup? h = m.cache.lookup? h := by
  have hc : m.cache.Calm := hr.calm h₀ hrest
  obtain ⟨man, hman, hgroups⟩ := exists_of_schedule hc hload
  have htook : Took man.handles m.cache c₁ := .of_loadGroups hc hgroups
  obtain ⟨c₂, hunload, hdropped⟩ := htook.calm.exists_of_unloadGroups man.groups
  refine ⟨man, c₂, hman, ?_, fun h e hl he => ?_, fun h hh hidle => ?_,
    fun h hh => ?_⟩
  · exact (Program.run_orStop_of_ok (htook.run_manifest hc hman)).trans hunload
  · have hgains := htook.gains h
    rw [hl] at hgains
    exact (hdropped.lookup? h).trans (hgains.dropping_of_held he)
  · have hlisted : man.handles.count h ≠ 0 :=
      Nat.pos_iff_ne_zero.1 (List.count_pos_iff.2 hh)
    exact (hdropped.lookup? h).trans
      ((htook.gains h).dropping_of_idle hlisted hidle)
  · have hgains := htook.gains h
    have hlook := hdropped.lookup? h
    have hzero : man.handles.count h = 0 := List.count_eq_zero_of_not_mem hh
    rw [hzero] at hgains
    rw [show (⟨man.groups⟩ : Manifest).handles.count h = 0 from hzero] at hlook
    exact hlook.trans hgains.dropping_of_zero

/-! ### A small store -/

/-- The name of a package. -/
def crate : NameId := ⟨2⟩

/-- Callers of a cache that knows packages, and another type of the bytes as
they are; its source has what is theirs. -/
def packageCallers (programs : List (Program α)) : Machine α where
  cache :=
    { kinds := (Table.empty.put Machine.theirs.type (Kind.raw 3)).put
        Kind.packageType Kind.package
      source := .memory (Table.empty.put Machine.theirs [7]) }
  threads := programs.map Thread.ofProgram

/-- Every type acts as the bytes as they are, or as packages. -/
def packageConduct : Conduct := fun _ k => k = Kind.raw 3 ∨ k = Kind.package

theorem starts_packageCallers {programs : List (Program α)}
    (hp : ∀ p ∈ programs, p.Honest packageConduct {}) :
    (packageCallers programs).Starts packageConduct :=
  Machine.starts_of_kinds (Machine.acts_put (Machine.acts_put nofun (.inl rfl))
    (.inr rfl)) hp

/-- A manifest that lists what is theirs twice. -/
def doubled : Manifest :=
  ⟨[⟨Machine.theirs.type, [Machine.theirs.name, Machine.theirs.name]⟩]⟩

/-- Adds a package with a manifest, and loads what is theirs. -/
def supply (m : Manifest) : Program (Except Failure Unit) :=
  (addLoaded (handle crate) (.package m)).orStop fun _ =>
    load Machine.theirs.type [Machine.theirs.name]

theorem supply_honest (m : Manifest) : (supply m).Honest packageConduct {} :=
  (addLoaded_honest _ _).orStop fun _ _ => load_honest _ _

/-- Adds a package that lists what is theirs twice. -/
def addDoubled : Program (Except Failure Unit) := supply doubled

theorem starts_addDoubled :
    (packageCallers [addDoubled]).Starts packageConduct := by
  refine starts_packageCallers fun p hp => ?_
  rw [List.mem_singleton.1 hp]
  exact supply_honest _

/-- Whether the loading of a package, scheduled in a cache, goes well. -/
def loadsWell (p : NameId) (c : Cache) : Bool :=
  ((schedule p).run c).1 matches .ok (.ok ())

theorem run_of_loadsWell {p : NameId} {c : Cache} (h : loadsWell p c = true) :
    (schedule p).run c = (.ok (.ok ()), ((schedule p).run c).2) := by
  refine Prod.ext ?_ rfl
  unfold loadsWell at h
  split at h
  · assumption
  · cases h

/-- What is theirs has a reference of its own before the package is loaded, and
has this one after the package is unloaded. -/
theorem unload_balances_load_of_doubled :
    (packageCallers [addDoubled]).Starts packageConduct ∧
      ∃ (es : List Event) (m : Machine (Except Failure Unit)) (c₁ c₂ : Cache)
          (e : Entry),
        Machine.Course packageConduct (packageCallers [addDoubled]) es m ∧
          (∀ t ∈ m.threads, t.atRest = true) ∧
          (schedule crate).run m.cache = (.ok (.ok ()), c₁) ∧
          (unload crate).run c₁ = (.ok (), c₂) ∧ 1 ≤ e.refCount ∧
          m.cache.lookup? Machine.theirs = some e ∧
          c₂.lookup? Machine.theirs = some e := by
  have hrun := Machine.exists_course packageConduct
    (packageCallers [addDoubled]) (List.replicate 20 0)
    (P := fun _ m => (∀ t ∈ m.threads, t.atRest = true) ∧
      loadsWell crate m.cache ∧
      (m.cache.lookup? Machine.theirs).any (fun e => 1 ≤ e.refCount))
    (by decide +kernel)
  obtain ⟨es, m, hr, hend⟩ := hrun
  obtain ⟨hrest, hwell, hheld⟩ := of_decide_eq_true hend
  obtain ⟨e, hl, he⟩ := (Option.any_eq_true _ _).1 hheld
  have hload := run_of_loadsWell hwell
  obtain ⟨man, c₂, -, hunload, hkept, -, -⟩ :=
    unload_balances_load starts_addDoubled hr hrest hload
  have hone : 1 ≤ e.refCount := of_decide_eq_true he
  exact ⟨starts_addDoubled, es, m, _, c₂, e, hr, hrest, hload, hunload, hone,
    hl, hkept _ e hl hone⟩

end Package

end ResourceHost
