import ResourceHost.Host.Basic
import ResourceHost.Proofs.Unit.Batches

/-!
# Transforms across spawns

While units are spawned and single entities created, all transforms that are
stored belong to entities that the allocator has numbered.  The entities of the
next unit have higher numbers, so that its groups never touch what is there;
among themselves the last record of an entity counts.  A group of transforms is
stored as a whole or not at all.
-/

namespace ResourceHost

/-! ### Records and what is stored for them -/

namespace Transform

theorem exists_of_ofRecords_cons {r : Param.Record} {rs : List Param.Record}
    {parsed : List Transform} (h : ofRecords (r :: rs) = .ok parsed) :
    ∃ t rest, ofRecord r = .ok t ∧ ofRecords rs = .ok rest ∧
      parsed = t :: rest := by
  rw [ofRecords] at h
  cases hr : ofRecord r with
  | error f =>
    rw [hr] at h
    cases h
  | ok t =>
    cases hrs : ofRecords rs with
    | error f =>
      rw [hr, hrs] at h
      cases h
    | ok rest =>
      rw [hr, hrs] at h
      cases h
      exact ⟨t, rest, rfl, rfl, rfl⟩

/-- One bad record is enough. -/
theorem ofRecords_of_rejected {rs : List Param.Record}
    (h : ∃ r ∈ rs, ∃ f, ofRecord r = .error f) :
    ∃ f, ofRecords rs = .error f := by
  obtain ⟨r, hr, f, hf⟩ := h
  cases hparsed : ofRecords rs with
  | error f' => exact ⟨f', rfl⟩
  | ok parsed =>
    induction rs generalizing parsed with
    | nil => cases hr
    | cons r' rs ih =>
      obtain ⟨t, rest, ht, hrest, -⟩ := exists_of_ofRecords_cons hparsed
      rcases List.mem_cons.1 hr with rfl | hr
      · rw [hf] at ht
        cases ht
      · exact absurd (ih hr rest hrest) (by simp)

end Transform

namespace Transforms

theorem store_append (world : WorldId) (xs ys : List (EntityId × Transform))
    (ts : Transforms) :
    store world (xs ++ ys) ts = store world ys (store world xs ts) := by
  induction xs generalizing ts with
  | nil => rfl
  | cons x xs ih => exact ih _

theorem get?_store_of_not_mem {world w : WorldId} {e : EntityId}
    {xs : List (EntityId × Transform)} (h : w = world → e ∉ xs.map (·.1))
    (ts : Transforms) : (store world xs ts).get? (w, e) = ts.get? (w, e) := by
  induction xs generalizing ts with
  | nil => rfl
  | cons x xs ih =>
    have hne : (w, e) ≠ (world, x.1) := by
      intro heq
      obtain ⟨hw, rfl⟩ := Prod.mk.inj heq
      exact h hw List.mem_cons_self
    have hxs :=
      ih (fun hw hmem => h hw (List.mem_cons_of_mem _ hmem))
        (ts.put (world, x.1) x.2)
    rw [Table.get?_put_of_ne ts hne] at hxs
    exact hxs

/-- Stores all that is asked for, if every record is that of a transform;
nothing otherwise. -/
theorem spawn_cases (world : WorldId) (entities : List EntityId)
    (records : List Param.Record) (ts : Transforms) :
    (∃ f, Transform.ofRecords records = .error f ∧
        spawn world entities records ts = (.error f, ts)) ∨
      ∃ parsed, Transform.ofRecords records = .ok parsed ∧
        spawn world entities records ts =
          (.ok (), store world (entities.zip parsed) ts) := by
  rw [spawn]
  cases Transform.ofRecords records with
  | error f => exact .inl ⟨f, rfl, rfl⟩
  | ok parsed => exact .inr ⟨parsed, rfl, rfl⟩

end Transforms

namespace Unit

variable {σ : Type}

theorem entityAt_inj {root : EntityId} {i j : Nat} :
    entityAt root i = entityAt root j ↔ i = j := by
  simp [entityAt]

/-- What groups give to a component: indices with the records for them, in
order. -/
def given (c : ComponentId) (groups : List Group) : List (Nat × Param.Record) :=
  (groups.filter fun g => g.component = c).flatMap fun g => g.entities.zip
    g.records

/-- The record is the last that groups give to a component for an index. -/
def LastGiven (c : ComponentId) (groups : List Group) (i : Nat)
    (r : Param.Record) : Prop :=
  ∃ earlier later, given c groups = earlier ++ (i, r) :: later ∧
    i ∉ later.map (·.1)

theorem given_cons_self {c : ComponentId} {g : Group} (h : g.component = c)
    (gs : List Group) :
    given c (g :: gs) = g.entities.zip g.records ++ given c gs := by
  simp [given, h]

theorem given_cons_of_ne {c : ComponentId} {g : Group} (h : g.component ≠ c)
    (gs : List Group) : given c (g :: gs) = given c gs := by
  simp [given, h]

/-- If there is a record for each index, something is given for every index that
is named. -/
theorem mem_given_iff {c : ComponentId} {groups : List Group}
    (hlen : ∀ g ∈ groups, g.entities.length = g.records.length) (i : Nat) :
    i ∈ (given c groups).map (·.1) ↔
      ∃ g ∈ groups, g.component = c ∧ i ∈ g.entities := by
  have hzip : ∀ g ∈ groups, (g.entities.zip g.records).map (·.1) = g.entities :=
    fun g hg => List.map_fst_zip (Nat.le_of_eq (hlen g hg))
  simp only [given, List.map_flatMap, List.mem_flatMap, List.mem_filter,
    decide_eq_true_eq]
  constructor
  · rintro ⟨g, ⟨hg, hc⟩, hi⟩
    exact ⟨g, hg, hc, hzip g hg ▸ hi⟩
  · rintro ⟨g, hg, hc, hi⟩
    exact ⟨g, ⟨hg, hc⟩, (hzip g hg).symm ▸ hi⟩

/-- Of the pairs with one index there is a last. -/
theorem exists_last {i : Nat} {pairs : List (Nat × Param.Record)}
    (h : i ∈ pairs.map (·.1)) :
    ∃ r earlier later,
      pairs = earlier ++ (i, r) :: later ∧ i ∉ later.map (·.1) := by
  induction pairs with
  | nil => cases h
  | cons p rest ih =>
    by_cases hrest : i ∈ rest.map (·.1)
    · obtain ⟨r, earlier, later, rfl, hlater⟩ := ih hrest
      exact ⟨r, p :: earlier, later, rfl, hlater⟩
    · obtain ⟨j, r⟩ := p
      rcases List.mem_cons.1 h with rfl | h
      · exact ⟨r, [], rest, rfl, hrest⟩
      · exact absurd h hrest

/-! ### Groups as a whole -/

/-- Pairs that are stored for pairs that are given, in a unit whose root is
`root`: every record is that of a transform. -/
inductive Placed (root : EntityId) :
    List (Nat × Param.Record) → List (EntityId × Transform) → Prop where
  | nil : Placed root [] []
  | cons {i : Nat} {r : Param.Record} {t : Transform}
      {given : List (Nat × Param.Record)} {stored : List (EntityId × Transform)}
      (ht : Transform.ofRecord r = .ok t) (h : Placed root given stored) :
      Placed root ((i, r) :: given) ((entityAt root i, t) :: stored)

namespace Placed

variable {root : EntityId} {pairs pairs' : List (Nat × Param.Record)}
  {stored stored' : List (EntityId × Transform)}

theorem append (h : Placed root pairs stored)
    (h' : Placed root pairs' stored') :
    Placed root (pairs ++ pairs') (stored ++ stored') := by
  induction h with
  | nil => exact h'
  | cons ht _ ih => exact .cons ht ih

theorem zip {records : List Param.Record} {parsed : List Transform}
    (h : Transform.ofRecords records = .ok parsed) (indices : List Nat) :
    Placed root (indices.zip records)
      ((indices.map (entityAt root)).zip parsed) := by
  induction indices generalizing records parsed with
  | nil => exact .nil
  | cons i is ih =>
    cases records with
    | nil =>
      cases h
      exact .nil
    | cons r rs =>
      obtain ⟨t, rest, ht, hrest, rfl⟩ := Transform.exists_of_ofRecords_cons h
      exact .cons ht (ih hrest)

theorem entities (h : Placed root pairs stored) :
    stored.map (·.1) = pairs.map fun p => entityAt root p.1 := by
  induction h with
  | nil => rfl
  | cons ht _ ih =>
    rw [List.map_cons, List.map_cons, ih]

theorem mem_iff (h : Placed root pairs stored) (i : Nat) :
    entityAt root i ∈ stored.map (·.1) ↔ i ∈ pairs.map (·.1) := by
  rw [h.entities, List.mem_map, List.mem_map]
  constructor
  · rintro ⟨p, hp, heq⟩
    exact ⟨p, hp, entityAt_inj.1 heq⟩
  · rintro ⟨p, hp, rfl⟩
    exact ⟨p, hp, rfl⟩

/-- The last record for an index is the one that counts. -/
theorem get?_store (h : Placed root pairs stored) {i : Nat} {r : Param.Record}
    {earlier later : List (Nat × Param.Record)}
    (hsplit : pairs = earlier ++ (i, r) :: later) (hlast : i ∉ later.map (·.1))
    (world : WorldId) (ts : Transforms) :
    ∃ t, Transform.ofRecord r = .ok t ∧
      (Transforms.store world stored ts).get? (world, entityAt root i) =
        some t := by
  induction h generalizing earlier ts with
  | nil => simp at hsplit
  | @cons j r' t rest stored ht h ih =>
    cases earlier with
    | nil =>
      obtain ⟨hp, rfl⟩ := List.cons.inj hsplit
      cases hp
      refine ⟨t, ht, ?_⟩
      have hnot : world = world → entityAt root i ∉ stored.map (·.1) :=
        fun _ => mt (h.mem_iff i).1 hlast
      have hrest :=
        Transforms.get?_store_of_not_mem hnot
          (ts.put (world, entityAt root i) t)
      rw [Table.get?_put_self] at hrest
      exact hrest
    | cons p earlier => exact ih (List.cons.inj hsplit).2 _

end Placed

/-- Transforms are the components of type `c`: their spawner keeps them in a
part of the state that no other spawner changes. -/
structure Places (components : Components σ) (c : ComponentId)
    (place : σ → Transforms) : Prop where
  own : ∃ spawner, components.get? c = some spawner ∧
    ∀ world entities records s,
    ((spawner.spawn world entities records s).1,
        place (spawner.spawn world entities records s).2)
      = Transforms.spawn world entities records (place s)
  others : ∀ c' spawner, c' ≠ c → components.get? c' = some spawner →
    ∀ world entities records s,
    place (spawner.spawn world entities records s).2 = place s

section

variable {components : Components σ} {c : ComponentId} {place : σ → Transforms}
  {world : WorldId} {root : EntityId} {g : Group}
  {groups done called : List Group} {s s' : σ} {o : Except Failure Unit}

/-- A group of transforms is stored as a whole, or not at all. -/
theorem Places.answered (hc : Places components c place) (hg : g.component = c)
    (h : g.Answered components world root s o s') :
    (∃ f, Transform.ofRecords g.records = .error f ∧ o = .error f ∧
        place s' = place s) ∨
      ∃ parsed, Transform.ofRecords g.records = .ok parsed ∧ o = .ok () ∧
        place s' =
          Transforms.store world ((g.entities.map (entityAt root)).zip parsed)
            (place s) := by
  obtain ⟨spawner, hspawner, hrun⟩ := h
  obtain ⟨own, hown, hspawn⟩ := hc.own
  rw [hg, hown] at hspawner
  cases hspawner
  have hplace := hspawn world (g.entities.map (entityAt root)) g.records s
  rw [hrun] at hplace
  rcases Transforms.spawn_cases world (g.entities.map (entityAt root)) g.records
    (place s) with
    ⟨f, hf, heq⟩ | ⟨parsed, hparsed, heq⟩
  · obtain ⟨ho, hs⟩ := Prod.mk.inj (hplace.trans heq)
    exact .inl ⟨f, hf, ho, hs⟩
  · obtain ⟨ho, hs⟩ := Prod.mk.inj (hplace.trans heq)
    exact .inr ⟨parsed, hparsed, ho, hs⟩

/-- Any other group leaves transforms alone. -/
theorem Places.answered_of_ne (hc : Places components c place)
    (hg : g.component ≠ c) (h : g.Answered components world root s o s') :
    place s' = place s := by
  obtain ⟨spawner, hspawner, hrun⟩ := h
  have hplace :=
    hc.others _ _ hg hspawner world (g.entities.map (entityAt root)) g.records s
  rw [hrun] at hplace
  exact hplace

/-- A group of transforms that is taken is stored as a whole. -/
theorem Places.taken_group (hc : Places components c place)
    (hg : g.component = c)
    (h : g.Answered components world root s (.ok ()) s') :
    ∃ stored, Placed root (g.entities.zip g.records) stored ∧
      place s' = Transforms.store world stored (place s) := by
  rcases hc.answered hg h with ⟨f, -, ho, -⟩ | ⟨parsed, hparsed, -, hs⟩
  · cases ho
  · exact ⟨_, .zip hparsed g.entities, hs⟩

/-- A group that fails leaves transforms alone. -/
theorem Places.failed_group (hc : Places components c place) {f : Failure}
    (h : g.Answered components world root s (.error f) s') :
    place s' = place s := by
  by_cases hg : g.component = c
  · rcases hc.answered hg h with ⟨f', -, -, hs⟩ | ⟨parsed, -, ho, -⟩
    · exact hs
    · cases ho
  · exact hc.answered_of_ne hg h

/-- A group of transforms with a bad record fails. -/
theorem Places.rejected_group (hc : Places components c place)
    (hg : g.component = c)
    (hbad : ∃ r ∈ g.records, ∃ f, Transform.ofRecord r = .error f)
    (h : g.Answered components world root s o s') : ∃ f, o = .error f := by
  obtain ⟨f, hf⟩ := Transform.ofRecords_of_rejected hbad
  rcases hc.answered hg h with ⟨f', -, ho, -⟩ | ⟨parsed, hparsed, -, -⟩
  · exact ⟨f', ho⟩
  · cases hf.symm.trans hparsed

/-- What is given by groups that are taken is stored. -/
theorem Places.taken (hc : Places components c place)
    (h : Taken components world root done s s') :
    ∃ stored, Placed root (given c done) stored ∧
      place s' = Transforms.store world stored (place s) := by
  induction h with
  | nil => exact ⟨[], .nil, rfl⟩
  | @cons g gs s s₁ s' hg _ ih =>
    obtain ⟨stored, hplaced, hstore⟩ := ih
    by_cases hcomponent : g.component = c
    · obtain ⟨first, hfirst, hstore₁⟩ := hc.taken_group hcomponent hg
      refine ⟨first ++ stored, ?_, ?_⟩
      · rw [given_cons_self hcomponent]
        exact hfirst.append hplaced
      · rw [Transforms.store_append, ← hstore₁, hstore]
    · rw [hc.answered_of_ne hcomponent hg] at hstore
      exact ⟨stored, given_cons_of_ne hcomponent gs ▸ hplaced, hstore⟩

/-- What is given by the groups that are done is stored, and nothing else. -/
theorem Places.processed (hc : Places components c place)
    (h : Processed components world root groups s done called o s') :
    ∃ stored, Placed root (given c done) stored ∧
      place s' = Transforms.store world stored (place s) := by
  cases h with
  | through ht => exact hc.taken ht
  | unknown _ ht _ => exact hc.taken ht
  | failed _ ht hf =>
    -- The group that fails has changed other components at most.
    rw [hc.failed_group hf]
    exact hc.taken ht

end

/-! ### One spawn -/

/-- What a spawn comes to, with the groups that are done. -/
inductive Spawned (components : Components σ) (d : Description)
    (world : WorldId) (a : Allocator) (s : σ) :
    (done : List Group) → Except Failure EntityId → Allocator → σ → Prop where
  | refused {problem : UnitProblem} (hd : ¬ d.Valid) :
      Spawned components d world a s [] (.error (.malformedUnit problem)) a s
  | processed {done called : List Group} {o : Except Failure Unit} {s' : σ}
      (hd : d.Valid)
      (h : Processed components world ⟨a.created⟩ d.groups s done called o s') :
      Spawned components d world a s done (o.map fun _ => ⟨a.created⟩)
        ⟨a.created + d.entityCount⟩ s'

theorem exists_spawned {d : Description} {world : WorldId}
    {components : Components σ} {a a' : Allocator} {s s' : σ}
    {result : Except Failure EntityId}
    (h : spawn d world components a s = (result, a', s')) :
    ∃ done, Spawned components d world a s done result a' s' := by
  by_cases hd : d.Valid
  · obtain ⟨done, called, o, s₁, hp, hspawn, -⟩ :=
      exists_spawn hd world components a.created s []
    rw [h] at hspawn
    cases hspawn
    exact ⟨done, .processed hd hp⟩
  · obtain ⟨problem, hproblem⟩ := Description.exists_problem hd
    rw [spawn_of_not_valid hproblem] at h
    cases h
    exact ⟨[], .refused hd⟩

/-- All transforms that are stored belong to entities that have been created. -/
def Numbered (a : Allocator) (ts : Transforms) : Prop :=
  ∀ w e t, ts.get? (w, e) = some t → e.raw < a.created

section

variable {components : Components σ} {c : ComponentId} {place : σ → Transforms}
  {d : Description} {world : WorldId} {a a' : Allocator} {s s' : σ}
  {done : List Group} {result : Except Failure EntityId}

theorem Spawned.groupFits
    (h : Spawned components d world a s done result a' s') :
    ∀ g ∈ done, Description.GroupFits d.entityCount g := by
  cases h with
  | refused _ => simp
  | processed hd hp =>
    intro g hg
    obtain ⟨rest, hrest⟩ := hp.exists_append
    exact hd.groupsFit g (hrest ▸ List.mem_append_left rest hg)

theorem Spawned.stored (hc : Places components c place)
    (h : Spawned components d world a s done result a' s') :
    ∃ stored, Placed ⟨a.created⟩ (given c done) stored ∧
      place s' = Transforms.store world stored (place s) := by
  cases h with
  | refused _ => exact ⟨[], .nil, rfl⟩
  | processed _ hp => exact hc.processed hp

theorem Spawned.taken (h : Spawned components d world a s done result a' s') :
    ∃ s₁, Taken components world ⟨a.created⟩ done s s₁ := by
  cases h with
  | refused _ => exact ⟨s, .nil⟩
  | processed _ hp => exact hp.taken

/-- What is stored for an entity is what was stored before, if the groups that
are done do not name the entity. -/
theorem Spawned.get?_of_not_named (hc : Places components c place)
    (h : Spawned components d world a s done result a' s') {w : WorldId}
    {e : EntityId}
    (hnot : w = world → ¬ ∃ g ∈ done, g.component = c ∧ ∃ i ∈ g.entities,
      e = entityAt ⟨a.created⟩ i) :
    (place s').get? (w, e) = (place s).get? (w, e) := by
  obtain ⟨stored, hplaced, hstore⟩ := h.stored hc
  rw [hstore]
  refine Transforms.get?_store_of_not_mem (fun hw hmem => hnot hw ?_) (place s)
  rw [hplaced.entities, List.mem_map] at hmem
  obtain ⟨p, hp, rfl⟩ := hmem
  obtain ⟨g, hg, hcomponent, hi⟩ :=
    (mem_given_iff (fun g hg => (h.groupFits g hg).1) p.1).1
      (List.mem_map_of_mem hp)
  exact ⟨g, hg, hcomponent, p.1, hi, rfl⟩

/-- For an index that a group names that is done, the last record is what is
stored. -/
theorem Spawned.exists_last (hc : Places components c place)
    (h : Spawned components d world a s done result a' s') {i : Nat}
    (hi : ∃ g ∈ done, g.component = c ∧ i ∈ g.entities) :
    ∃ r t, LastGiven c done i r ∧ Transform.ofRecord r = .ok t ∧
      (place s').get? (world, entityAt ⟨a.created⟩ i) = some t := by
  obtain ⟨stored, hplaced, hstore⟩ := h.stored hc
  have hgiven := (mem_given_iff (fun g hg => (h.groupFits g hg).1) i).2 hi
  obtain ⟨r, earlier, later, hsplit, hlast⟩ := Unit.exists_last hgiven
  obtain ⟨t, ht, hget⟩ := hplaced.get?_store hsplit hlast world (place s)
  exact ⟨r, t, ⟨earlier, later, hsplit, hlast⟩, ht, by rw [hstore, hget]⟩

/-- The entities of a unit are new. -/
theorem Spawned.keeps (hc : Places components c place)
    (hn : Numbered a (place s))
    (h : Spawned components d world a s done result a' s') {w : WorldId}
    {e : EntityId} {t : Transform} (ht : (place s).get? (w, e) = some t) :
    (place s').get? (w, e) = some t := by
  rw [h.get?_of_not_named hc, ht]
  -- Whatever was stored has a lower number than the root of this unit.
  rintro - ⟨g, hg, -, i, hi, rfl⟩
  have hlt := hn w _ t ht
  simp only [entityAt] at hlt
  omega

theorem Spawned.numbered (hc : Places components c place)
    (hn : Numbered a (place s))
    (h : Spawned components d world a s done result a' s') :
    Numbered a' (place s') := by
  intro w e t ht
  by_cases hnamed : w = world ∧ ∃ g ∈ done, g.component = c ∧ ∃ i ∈ g.entities,
      e = entityAt ⟨a.created⟩ i
  · obtain ⟨-, g, hg, -, i, hi, rfl⟩ := hnamed
    have hlt := (h.groupFits g hg).2 i hi
    cases h with
    | refused _ => cases hg
    | processed _ _ =>
      simp only [entityAt]
      omega
  · rw [h.get?_of_not_named hc fun hw hg => hnamed ⟨hw, hg⟩] at ht
    have hlt := hn w e t ht
    cases h with
    | refused _ => exact hlt
    | processed _ _ => exact Nat.lt_add_right d.entityCount hlt

/-- A group with a record that is no transform stores nothing and is not
done. -/
theorem Spawned.rejected (hc : Places components c place)
    (h : Spawned components d world a s done result a' s') {g : Group}
    (hg : g.component = c)
    (hbad : ∃ r ∈ g.records, ∃ f, Transform.ofRecord r = .error f) :
    g ∉ done := by
  intro hmem
  obtain ⟨s₁, ht⟩ := h.taken
  obtain ⟨s₂, s₃, hanswered⟩ := ht.answered hmem
  obtain ⟨f, hf⟩ := hc.rejected_group hg hbad hanswered
  cases hf

end

/-! ### Many spawns -/

/-- What is done with an allocator and components. -/
inductive Act where
  | create
  | spawn (d : Description) (world : WorldId)

/-- Does it. -/
def Act.run (components : Components σ) : Act → Allocator × σ → Allocator × σ
  | .create, (a, s) => (a.create.2, s)
  | .spawn d world, (a, s) => (Unit.spawn d world components a s).2

/-- Does one thing after another. -/
def Act.runAll (components : Components σ) (acts : List Act)
    (x : Allocator × σ) : Allocator × σ :=
  acts.foldl (fun x act => act.run components x) x

theorem Act.numbered {components : Components σ} {c : ComponentId}
    {place : σ → Transforms} (hc : Places components c place) (act : Act)
    {x : Allocator × σ} (hn : Numbered x.1 (place x.2)) :
    Numbered (act.run components x).1 (place (act.run components x).2) := by
  cases act with
  | create => exact fun w e t ht => Nat.lt_succ_of_lt (hn w e t ht)
  | spawn d world =>
    have hspawn : Unit.spawn d world components x.1 x.2 = (_, _, _) := rfl
    obtain ⟨done, h⟩ := exists_spawned hspawn
    exact h.numbered hc hn

theorem Act.numbered_runAll {components : Components σ} {c : ComponentId}
    {place : σ → Transforms} (hc : Places components c place) (acts : List Act)
    {x : Allocator × σ} (hn : Numbered x.1 (place x.2)) :
    Numbered (runAll components acts x).1
      (place (runAll components acts x).2) := by
  induction acts generalizing x with
  | nil => exact hn
  | cons act acts ih => exact ih (act.numbered hc hn)

/-- Transforms across spawns, from a state without transforms.  Whatever was
created and spawned, each transform belongs to an entity that has been created.
The next spawn keeps them all; it stores transforms for exactly the indices that
its groups of transforms name that are done, each that of the last record that
these groups give for the index; and a group with a record that is no transform
is not done and stores nothing. -/
theorem placements {components : Components σ} {c : ComponentId}
    {place : σ → Transforms} (hc : Places components c place) {a₀ a : Allocator}
    {s₀ s : σ} (h₀ : place s₀ = Table.empty) {acts : List Act}
    (hrun : Act.runAll components acts (a₀, s₀) = (a, s)) :
    (∀ w e t, (place s).get? (w, e) = some t → e.raw < a.created) ∧
    ∀ d world result a' s', spawn d world components a s = (result, a', s') →
      (∀ k t, (place s).get? k = some t → (place s').get? k = some t) ∧
      ∃ done, Spawned components d world a s done result a' s' ∧
        (∀ w e, (place s).get? (w, e) = none →
          ((∃ t, (place s').get? (w, e) = some t) ↔ w = world ∧
            ∃ g ∈ done, g.component = c ∧
            ∃ i ∈ g.entities, e = entityAt ⟨a.created⟩ i)) ∧
        (∀ i, (∃ g ∈ done, g.component = c ∧ i ∈ g.entities) →
          ∃ r t, LastGiven c done i r ∧ Transform.ofRecord r = .ok t ∧
            (place s').get? (world, entityAt ⟨a.created⟩ i) = some t) ∧
        ∀ g, g.component = c →
          (∃ r ∈ g.records, ∃ f, Transform.ofRecord r = .error f) →
          g ∉ done ∧
          ∀ s₁ o s₂, g.Answered components world ⟨a.created⟩ s₁ o s₂ →
            (∃ f, o = .error f) ∧ place s₂ = place s₁ := by
  have hn : Numbered a (place s) := by
    have hempty : Numbered a₀ (place s₀) := by
      intro w e t ht
      rw [h₀] at ht
      cases ht
    have hall := Act.numbered_runAll hc acts (x := (a₀, s₀)) hempty
    rw [hrun] at hall
    exact hall
  refine ⟨hn, fun d world result a' s' hspawn => ?_⟩
  obtain ⟨done, h⟩ := exists_spawned hspawn
  refine ⟨fun k t ht => h.keeps hc hn ht, done, h, fun w e hnone => ⟨?_, ?_⟩,
    fun i hi => h.exists_last hc hi,
    fun g hg hbad => ⟨h.rejected hc hg hbad, ?_⟩⟩
  · rintro ⟨t, ht⟩
    refine Classical.byContradiction fun hnot => ?_
    rw [h.get?_of_not_named hc fun hw hg => hnot ⟨hw, hg⟩, hnone] at ht
    cases ht
  · rintro ⟨rfl, g, hg, hcomponent, i, hi, rfl⟩
    obtain ⟨r, t, -, -, ht⟩ := h.exists_last hc ⟨g, hg, hcomponent, hi⟩
    exact ⟨t, ht⟩
  · intro s₁ o s₂ hanswered
    obtain ⟨f, rfl⟩ := hc.rejected_group hg hbad hanswered
    exact ⟨⟨f, rfl⟩, hc.failed_group hanswered⟩

/-- Hosts place entities by transforms. -/
theorem places_components :
    Places Host.components Host.transformComponent id where
  own := ⟨Transforms.spawner, Table.get?_put_self .., fun _ _ _ _ => rfl⟩
  others := by
    intro c' spawner hne hspawner
    rw [Host.components, Table.get?_put_of_ne _ hne,
      Table.get?_empty] at hspawner
    cases hspawner

/-- Two entities, the first of them placed twice. -/
def placedTwice : Description :=
  ⟨2, [⟨Host.transformComponent, [0, 1, 0], [[], [], []]⟩]⟩

/-- A group whose second record is no transform. -/
def spoiled : Group :=
  ⟨Host.transformComponent, [0, 1], [[], [("scale", .text "big")]]⟩

/-- Three entities, the last of which is placed before a group is refused. -/
def halfPlaced : Description :=
  ⟨3, [⟨Host.transformComponent, [2], [[]]⟩, spoiled]⟩

/-- What is placed before a unit that is refused halfway stays, with what its
first group places. -/
theorem placements_of_halfPlaced :
    ∃ s s' done,
      Act.runAll Host.components [.create, .spawn placedTwice ⟨0⟩]
        ({}, Table.empty) = (⟨3⟩, s) ∧
      Spawned Host.components halfPlaced ⟨0⟩ ⟨3⟩ s done
        (.error (.spawner Host.transformComponent .badScale)) ⟨6⟩ s' ∧
      spoiled ∉ done ∧ (∃ t, s'.get? (⟨0⟩, ⟨1⟩) = some t) ∧
      (∃ t, s'.get? (⟨0⟩, ⟨5⟩) = some t) ∧ s'.get? (⟨0⟩, ⟨3⟩) = none := by
  let x := Act.runAll Host.components [.create, .spawn placedTwice ⟨0⟩]
    ({}, Table.empty)
  let y := spawn halfPlaced ⟨0⟩ Host.components ⟨3⟩ x.2
  have hrun : Act.runAll Host.components [.create, .spawn placedTwice ⟨0⟩]
      ({}, Table.empty) =
    (⟨3⟩, x.2) := rfl
  have hspawn : spawn halfPlaced ⟨0⟩ Host.components ⟨3⟩ x.2 =
    (.error (.spawner Host.transformComponent .badScale), ⟨6⟩, y.2.2) := rfl
  have hbefore : x.2.get? (⟨0⟩, ⟨1⟩) = some ⟨.zero, 1⟩ := rfl
  have hnone : y.2.2.get? (⟨0⟩, ⟨3⟩) = none := rfl
  have hlast : y.2.2.get? (⟨0⟩, ⟨5⟩) = some ⟨.zero, 1⟩ := rfl
  obtain ⟨-, hnext⟩ := placements places_components rfl hrun
  obtain ⟨hkeeps, done, h, -, -, hbad⟩ := hnext halfPlaced ⟨0⟩ _ _ _ hspawn
  have hspoiled : ∃ r ∈ spoiled.records, ∃ f, Transform.ofRecord r = .error f :=
    ⟨[("scale", .text "big")], by simp [spoiled], .badScale, rfl⟩
  exact ⟨x.2, y.2.2, done, hrun, h, (hbad spoiled rfl hspoiled).1,
    ⟨_, hkeeps _ _ hbefore⟩, ⟨_, hlast⟩, hnone⟩

end Unit

end ResourceHost
