import ResourceHost.Unit.Spawning

/-!
# Batches for spawners

Spawning a unit creates its entities one after another, looks the indices of
each group up among them and hands the group to the spawner of its component.
In a valid unit no index is out of range.  The groups are handed over in order,
each once, up to the first whose component has no spawner or whose spawner
fails.
-/

namespace ResourceHost

/-! ### Entities one by one -/

/-- Creates `k` entities, one after another. -/
def Allocator.createEach : (k : Nat) → Allocator → List EntityId × Allocator
  | 0, a => ([], a)
  | k + 1, a =>
    let (e, a) := a.create
    let (es, a) := createEach k a
    (e :: es, a)

namespace Unit

variable {σ : Type}

theorem createEach_eq (k : Nat) (a : Allocator) :
    a.createEach k = ((List.range k).map (entityAt ⟨a.created⟩),
      ⟨a.created + k⟩) := by
  induction k generalizing a with
  | zero => rfl
  | succ k ih =>
    have hnext : ∀ i,
        entityAt ⟨a.created + 1⟩ i = entityAt ⟨a.created⟩ (i + 1) := by
      intro i
      simp only [entityAt, EntityId.mk.injEq]
      omega
    simp only [Allocator.createEach, Allocator.create, ih,
      List.range_succ_eq_map, List.map_cons, List.map_map, Prod.mk.injEq,
      List.cons.injEq, Allocator.mk.injEq]
    refine ⟨⟨rfl, ?_⟩, by omega⟩
    exact List.map_congr_left fun i _ => hnext i

/-- The entities at indices; none if an index is out of range. -/
def pick? (entities : List EntityId) (indices : List Nat) :
    Option (List EntityId) :=
  indices.mapM fun i => entities[i]?

/-- Indices that are in range are found. -/
theorem pick?_of_lt (root : EntityId) {count : Nat} {indices : List Nat}
    (h : ∀ i ∈ indices, i < count) :
    pick? ((List.range count).map (entityAt root)) indices =
      some (indices.map (entityAt root)) := by
  unfold pick?
  induction indices with
  | nil => rfl
  | cons i is ih =>
    have hi : ((List.range count).map (entityAt root))[i]? =
        some (entityAt root i) := by
      simp [h i List.mem_cons_self]
    rw [List.mapM_cons, hi, ih fun j hj => h j (List.mem_cons_of_mem _ hj)]
    rfl

/-- Hands groups to their spawners, and looks their indices up among entities;
none if an index is out of range. -/
def spawnGroupsAt (components : Components σ) (world : WorldId)
    (entities : List EntityId) :
    List Group → σ → Option (Except Failure Unit × σ)
  | [], s => some (.ok (), s)
  | g :: gs, s =>
    match components.get? g.component with
    | none => some (.error (.unknownComponent g.component), s)
    | some spawner =>
      match pick? entities g.entities with
      | none => none
      | some ids =>
        match spawner.spawn world ids g.records s with
        | (.ok (), s') => spawnGroupsAt components world entities gs s'
        | (.error f, s') => some (.error (.spawner g.component f), s')

/-- Spawns a description entity by entity and index by index; none if an index
is out of range. -/
def spawnAt (d : Description) (world : WorldId) (components : Components σ)
    (a : Allocator) (s : σ) :
    Option (Except Failure EntityId × Allocator × σ) :=
  match d.validate with
  | .error f => some (.error f, a, s)
  | .ok () =>
    let (entities, a') := a.createEach d.entityCount
    match spawnGroupsAt components world entities d.groups s with
    | none => none
    | some (.error f, s') => some (.error f, a', s')
    | some (.ok (), s') => entities[0]?.map fun root => (.ok root, a', s')

theorem spawnGroupsAt_eq (components : Components σ) (world : WorldId)
    (root : EntityId) {count : Nat} {gs : List Group}
    (h : ∀ g ∈ gs, ∀ i ∈ g.entities, i < count) (s : σ) :
    spawnGroupsAt components world ((List.range count).map (entityAt root)) gs
        s =
      some (spawnGroups components world root gs s) := by
  induction gs generalizing s with
  | nil => rfl
  | cons g gs ih =>
    have hpick := pick?_of_lt root (h g List.mem_cons_self)
    have hgs := ih fun g' hg' => h g' (List.mem_cons_of_mem _ hg')
    simp only [spawnGroupsAt, spawnGroups, hpick]
    cases components.get? g.component with
    | none => rfl
    | some spawner =>
      dsimp only
      cases spawner.spawn world (g.entities.map (entityAt root))
        g.records s with
      | mk o s' =>
        cases o with
        | ok u => exact hgs s'
        | error f => rfl

theorem Description.validate_eq_ok_iff (d : Description) :
    d.validate = .ok () ↔ d.Valid := by
  rw [← problem?_eq_none_iff, validate]
  cases d.problem? <;> simp

/-- A description is refused for what is wrong with it. -/
theorem Description.exists_problem {d : Description} (hd : ¬ d.Valid) :
    ∃ problem, d.validate = .error (.malformedUnit problem) := by
  rw [← problem?_eq_none_iff] at hd
  obtain ⟨problem, hp⟩ := Option.ne_none_iff_exists'.1 hd
  exact ⟨problem, by rw [validate, hp]⟩

/-- No index is ever out of range. -/
theorem spawnAt_eq (d : Description) (world : WorldId)
    (components : Components σ) (a : Allocator) (s : σ) :
    spawnAt d world components a s = some (spawn d world components a s) := by
  by_cases hd : d.Valid
  · have hgroups := spawnGroupsAt_eq components world ⟨a.created⟩
      (fun g hg => (hd.groupsFit g hg).2) s
    have hroot : ((List.range d.entityCount).map (entityAt ⟨a.created⟩))[0]? =
        some (⟨a.created⟩ : EntityId) := by
      have hpos : 0 < d.entityCount := Nat.pos_of_ne_zero hd.hasRoot
      simp [hpos, entityAt]
    simp only [spawnAt, spawn, d.validate_eq_ok_iff.2 hd, createEach_eq,
      hgroups, Allocator.createMany]
    cases hrun : spawnGroups components world ⟨a.created⟩ d.groups s with
    | mk o s' =>
      cases o with
      | error f => rfl
      | ok u =>
        dsimp only
        rw [hroot]
        rfl
  · obtain ⟨problem, hp⟩ := Description.exists_problem hd
    rw [spawnAt, spawn, hp]

/-! ### Groups in order -/

/-- The spawner of a group takes it, for a unit whose root is `root`, and comes
to a result. -/
def Group.Answered (components : Components σ) (world : WorldId)
    (root : EntityId) (g : Group) (s : σ) (o : Except Failure Unit) (s' : σ) :
    Prop :=
  ∃ spawner, components.get? g.component = some spawner ∧
    spawner.spawn world (g.entities.map (entityAt root)) g.records s = (o, s')

/-- The spawners of groups take them one after another, and none fails. -/
inductive Taken (components : Components σ) (world : WorldId)
    (root : EntityId) : List Group → σ → σ → Prop where
  | nil {s : σ} : Taken components world root [] s s
  | cons {g : Group} {gs : List Group} {s s₁ s' : σ}
      (hg : g.Answered components world root s (.ok ()) s₁)
      (hgs : Taken components world root gs s₁ s') :
      Taken components world root (g :: gs) s s'

/-- How groups are processed in order: those that were done without a failure,
those whose spawner was called, and what came of it. -/
inductive Processed (components : Components σ) (world : WorldId)
    (root : EntityId) (groups : List Group) (s : σ) :
    (done called : List Group) → Except Failure Unit → σ → Prop where
  | through {s' : σ} (h : Taken components world root groups s s') :
      Processed components world root groups s groups groups (.ok ()) s'
  | unknown {done rest : List Group} {g : Group} {s' : σ}
      (hsplit : groups = done ++ g :: rest)
      (h : Taken components world root done s s')
      (hn : components.get? g.component = none) :
      Processed components world root groups s done done
        (.error (.unknownComponent g.component)) s'
  | failed {done rest : List Group} {g : Group} {s₁ s' : σ} {f : Failure}
      (hsplit : groups = done ++ g :: rest)
      (h : Taken components world root done s s₁)
      (hf : g.Answered components world root s₁ (.error f) s') :
      Processed components world root groups s done (done ++ [g])
        (.error (.spawner g.component f)) s'

section

variable {components : Components σ} {world : WorldId} {root : EntityId}
  {g : Group} {gs done called : List Group} {s s₁ s' : σ}
  {o : Except Failure Unit}

theorem spawnGroups_of_unknown (hn : components.get? g.component = none) :
    spawnGroups components world root (g :: gs) s =
      (.error (.unknownComponent g.component), s) := by
  rw [spawnGroups, hn]

theorem spawnGroups_of_ok
    (hg : g.Answered components world root s (.ok ()) s₁) :
    spawnGroups components world root (g :: gs) s =
      spawnGroups components world root gs s₁ := by
  obtain ⟨spawner, hc, hrun⟩ := hg
  simp only [spawnGroups, hc, hrun]

theorem spawnGroups_of_error {f : Failure}
    (hg : g.Answered components world root s (.error f) s₁) :
    spawnGroups components world root (g :: gs) s =
      (.error (.spawner g.component f), s₁) := by
  obtain ⟨spawner, hc, hrun⟩ := hg
  simp only [spawnGroups, hc, hrun]

/-- A group that is done comes before those that are processed after it. -/
theorem Processed.cons (hg : g.Answered components world root s (.ok ()) s₁)
    (h : Processed components world root gs s₁ done called o s') :
    Processed components world root (g :: gs) s (g :: done) (g :: called)
      o s' := by
  cases h with
  | through ht => exact .through (.cons hg ht)
  | unknown hsplit ht hn =>
    subst hsplit
    exact .unknown rfl (.cons hg ht) hn
  | failed hsplit ht hf =>
    subst hsplit
    exact .failed rfl (.cons hg ht) hf

theorem Processed.called_subset
    (h : Processed components world root gs s done called o s') :
    ∀ g ∈ called, g ∈ gs := by
  intro g hg
  cases h with
  | through ht => exact hg
  | unknown hsplit ht hn =>
    subst hsplit
    exact List.mem_append_left _ hg
  | failed hsplit ht hf =>
    subst hsplit
    rw [List.mem_append, List.mem_singleton] at hg
    rcases hg with hg | rfl
    · exact List.mem_append_left _ hg
    · exact List.mem_append_right _ List.mem_cons_self

/-- What is done is the beginning of what there is to do. -/
theorem Processed.exists_append
    (h : Processed components world root gs s done called o s') :
    ∃ rest, gs = done ++ rest := by
  cases h with
  | through ht => exact ⟨[], (List.append_nil _).symm⟩
  | unknown hsplit ht hn => exact ⟨_, hsplit⟩
  | failed hsplit ht hf => exact ⟨_, hsplit⟩

theorem Taken.answered (h : Taken components world root done s s')
    (hg : g ∈ done) :
    ∃ s₁ s₂, g.Answered components world root s₁ (.ok ()) s₂ := by
  induction h with
  | nil => cases hg
  | cons hfirst _ ih =>
    rcases List.mem_cons.1 hg with rfl | hg
    · exact ⟨_, _, hfirst⟩
    · exact ih hg

theorem Processed.taken
    (h : Processed components world root gs s done called o s') :
    ∃ s₁, Taken components world root done s s₁ := by
  cases h with
  | through ht => exact ⟨_, ht⟩
  | unknown _ ht _ => exact ⟨_, ht⟩
  | failed _ ht _ => exact ⟨_, ht⟩

end

/-! ### What spawners write down -/

/-- What a spawner is asked for. -/
structure Batch where
  component : ComponentId
  world : WorldId
  entities : List EntityId
  records : List Param.Record

/-- What the spawner of a group is asked for, in a unit whose root is `root`. -/
def Group.batch (world : WorldId) (root : EntityId) (g : Group) : Batch :=
  ⟨g.component, world, g.entities.map (entityAt root), g.records⟩

/-- The spawner, which also writes down what it is asked for, behind what stands
there. -/
def recorder (c : ComponentId) (spawner : Spawner σ) :
    Spawner (σ × List Batch) where
  spawn world entities records x :=
    let (o, s) := spawner.spawn world entities records x.1
    (o, s, x.2 ++ [⟨c, world, entities, records⟩])

/-- The components, all of whose spawners write down what they are asked for. -/
def recording (components : Components σ) : Components (σ × List Batch) :=
  ⟨components.pairs.map fun p => (p.1, recorder p.1 p.2)⟩

theorem get?_recording (components : Components σ) (c : ComponentId) :
    (recording components).get? c = (components.get? c).map (recorder c) := by
  obtain ⟨pairs⟩ := components
  simp only [recording, Table.get?]
  induction pairs with
  | nil => rfl
  | cons p rest ih =>
    by_cases hc : p.1 = c
    · simp [Table.find, hc]
    · simp [Table.find, hc, ih]

/-- What is asked for a group is written down. -/
theorem Group.Answered.recording {components : Components σ} {world : WorldId}
    {root : EntityId} {g : Group} {s s' : σ} {o : Except Failure Unit}
    (hg : g.Answered components world root s o s') (calls : List Batch) :
    g.Answered (recording components) world root (s, calls) o
      (s', calls ++ [g.batch world root]) := by
  obtain ⟨spawner, hc, hrun⟩ := hg
  refine ⟨recorder g.component spawner, by rw [get?_recording, hc]; rfl, ?_⟩
  simp only [recorder, hrun]
  rfl

/-- The groups whose spawners were called are written down, and all else goes as
without a record. -/
theorem exists_processed (components : Components σ) (world : WorldId)
    (root : EntityId) (gs : List Group) (s : σ) (calls : List Batch) :
    ∃ done called o s', Processed components world root gs s done called o s' ∧
      spawnGroups components world root gs s = (o, s') ∧
      spawnGroups (recording components) world root gs (s, calls) =
        (o, s', calls ++ called.map (Group.batch world root)) := by
  induction gs generalizing s calls with
  | nil => exact ⟨[], [], .ok (), s, .through .nil, rfl, by simp [spawnGroups]⟩
  | cons g gs ih =>
    cases hc : components.get? g.component with
    | none =>
      have hn : (recording components).get? g.component = none := by
        rw [get?_recording, hc]
        rfl
      refine ⟨[], [], _, s, .unknown rfl .nil hc, spawnGroups_of_unknown hc, ?_⟩
      rw [spawnGroups_of_unknown hn, List.map_nil, List.append_nil]
    | some spawner =>
      cases hrun : spawner.spawn world (g.entities.map (entityAt root))
        g.records s with
      | mk o₁ s₁ =>
        have hg : g.Answered components world root s o₁ s₁ :=
          ⟨spawner, hc, hrun⟩
        cases o₁ with
        | ok u =>
          obtain ⟨done, called, o, s', hp, hplain, hrecorded⟩ :=
            ih s₁ (calls ++ [g.batch world root])
          refine ⟨g :: done, g :: called, o, s', hp.cons hg, ?_, ?_⟩
          · rw [spawnGroups_of_ok hg, hplain]
          · rw [spawnGroups_of_ok (hg.recording calls), hrecorded,
              List.append_assoc]
            rfl
        | error f =>
          exact ⟨[], [g], _, s₁, .failed rfl .nil hg, spawnGroups_of_error hg,
            spawnGroups_of_error (hg.recording calls)⟩

/-! ### The whole unit -/

/-- A valid description is processed group by group, and its entities stay
whatever comes of that. -/
theorem exists_spawn {d : Description} (hd : d.Valid) (world : WorldId)
    (components : Components σ) (n : Nat) (s : σ) (calls : List Batch) :
    ∃ done called o s',
      Processed components world ⟨n⟩ d.groups s done called o s' ∧
      spawn d world components ⟨n⟩ s =
        (o.map fun _ => ⟨n⟩, ⟨n + d.entityCount⟩, s') ∧
      spawn d world (recording components) ⟨n⟩ (s, calls) =
        (o.map fun _ => ⟨n⟩, ⟨n + d.entityCount⟩, s',
          calls ++ called.map (Group.batch world ⟨n⟩)) := by
  obtain ⟨done, called, o, s', hp, hplain, hrecorded⟩ :=
    exists_processed components world ⟨n⟩ d.groups s calls
  refine ⟨done, called, o, s', hp, ?_, ?_⟩
  · simp only [spawn, d.validate_eq_ok_iff.2 hd, Allocator.createMany, hplain]
    cases o <;> rfl
  · simp only [spawn, d.validate_eq_ok_iff.2 hd, Allocator.createMany,
      hrecorded]
    cases o <;> rfl

/-- Nothing comes of a description that is not valid. -/
theorem spawn_of_not_valid {d : Description} {problem : UnitProblem}
    (hd : d.validate = .error (.malformedUnit problem)) (world : WorldId)
    (components : Components σ) (a : Allocator) (s : σ) :
    spawn d world components a s = (.error (.malformedUnit problem), a, s) := by
  rw [spawn, hd]

/-- Spawning from end to end, for an allocator that has created `n` entities.
No index is ever out of range.  A description that is not valid is refused
before an entity is created or a spawner called.  Of any other all entities are
created, whatever comes of its groups; the spawners of the groups called are
those of the groups that are done and of one that fails, in order, and each is
given the entities and the records of its group. -/
theorem instantiation (d : Description) (world : WorldId)
    (components : Components σ) (n : Nat) (s : σ) :
    spawnAt d world components ⟨n⟩ s = some (spawn d world components ⟨n⟩ s) ∧
    ((d.entityCount = 0 ∨ ∃ g ∈ d.groups, g.entities.length ≠ g.records.length ∨
        ∃ i ∈ g.entities, d.entityCount ≤ i) →
      ∃ problem,
        spawn d world components ⟨n⟩ s =
          (.error (.malformedUnit problem), ⟨n⟩, s) ∧
        spawn d world (recording components) ⟨n⟩ (s, []) =
          (.error (.malformedUnit problem), ⟨n⟩, s, [])) ∧
    (d.entityCount ≠ 0 →
      (∀ g ∈ d.groups, g.entities.length = g.records.length ∧
        ∀ i ∈ g.entities, i < d.entityCount) →
      (⟨n⟩ : Allocator).createEach d.entityCount =
        ((List.range d.entityCount).map fun i => ⟨n + i⟩, ⟨n + d.entityCount⟩) ∧
      ∃ done called o s',
        Processed components world ⟨n⟩ d.groups s done called o s' ∧
        spawn d world components ⟨n⟩ s =
          (o.map fun _ => ⟨n⟩, ⟨n + d.entityCount⟩, s') ∧
        spawn d world (recording components) ⟨n⟩ (s, []) =
          (o.map fun _ => ⟨n⟩, ⟨n + d.entityCount⟩, s', called.map fun g =>
            ⟨g.component, world, g.entities.map fun i => ⟨n + i⟩, g.records⟩) ∧
        ∀ g ∈ called, g.entities.length = g.records.length) := by
  refine ⟨spawnAt_eq d world components ⟨n⟩ s, fun hbad => ?_,
    fun hroot hgroups => ?_⟩
  · have hd : ¬ d.Valid := by
      intro hd
      obtain hzero | ⟨g, hg, hunequal | ⟨i, hi, hrange⟩⟩ := hbad
      · exact hd.hasRoot hzero
      · exact hunequal (hd.groupsFit g hg).1
      · exact absurd ((hd.groupsFit g hg).2 i hi) (Nat.not_lt.2 hrange)
    obtain ⟨problem, hp⟩ := Description.exists_problem hd
    exact ⟨problem, spawn_of_not_valid hp .., spawn_of_not_valid hp ..⟩
  · refine ⟨createEach_eq d.entityCount ⟨n⟩, ?_⟩
    obtain ⟨done, called, o, s', hp, hplain, hrecorded⟩ :=
      exists_spawn ⟨hroot, hgroups⟩ world components n s []
    exact ⟨done, called, o, s', hp, hplain, hrecorded,
      fun g hg => (hgroups g (hp.called_subset g hg)).1⟩

/-- A component whose spawner counts the entities that it is handed, and one
whose spawner refuses them. -/
def tallying : Components Nat :=
  ⟨[(⟨0⟩, ⟨fun _ entities _ total => (.ok (), total + entities.length)⟩),
    (⟨1⟩, ⟨fun _ _ _ total => (.error .badScale, total)⟩)]⟩

/-- Two entities, named twice by a group that is counted; then a group that is
refused, and one that is left. -/
def pair : Description :=
  ⟨2, [⟨⟨0⟩, [1, 0, 1], [[], [], []]⟩, ⟨⟨1⟩, [0], [[]]⟩, ⟨⟨0⟩, [0], [[]]⟩]⟩

/-- The pair stops at its second group, and a unit without entities is
refused. -/
theorem instantiation_of_pair :
    (∃ done called, Processed tallying ⟨0⟩ ⟨5⟩ pair.groups 0 done called
        (.error (.spawner ⟨1⟩ .badScale)) 3 ∧
      called.map (Group.batch ⟨0⟩ ⟨5⟩) =
        [⟨⟨0⟩, ⟨0⟩, [⟨6⟩, ⟨5⟩, ⟨6⟩], [[], [], []]⟩, ⟨⟨1⟩, ⟨0⟩, [⟨5⟩], [[]]⟩]) ∧
      spawn pair ⟨0⟩ tallying ⟨5⟩ 0 =
        (.error (.spawner ⟨1⟩ .badScale), ⟨7⟩, 3) ∧
      ∃ problem, spawn ⟨0, []⟩ ⟨0⟩ tallying ⟨5⟩ 0 =
        (.error (.malformedUnit problem), ⟨5⟩, 0) := by
  have hrun : spawn pair ⟨0⟩ tallying ⟨5⟩ 0 =
      (.error (.spawner ⟨1⟩ .badScale), ⟨7⟩, 3) := rfl
  have hcalls : spawn pair ⟨0⟩ (recording tallying) ⟨5⟩ (0, []) =
    (.error (.spawner ⟨1⟩ .badScale), ⟨7⟩, 3,
      [⟨⟨0⟩, ⟨0⟩, [⟨6⟩, ⟨5⟩, ⟨6⟩], [[], [], []]⟩, ⟨⟨1⟩, ⟨0⟩, [⟨5⟩], [[]]⟩]) :=
      rfl
  refine ⟨?_, hrun, ?_⟩
  · obtain ⟨-, done, called, o, s', hp, hplain, hrecorded, -⟩ :=
      (instantiation pair ⟨0⟩ tallying 5 0).2.2 (by decide) (by decide)
    rw [hrun] at hplain
    rw [hcalls] at hrecorded
    cases o with
    | ok u => cases hplain
    | error f =>
      cases hplain
      refine ⟨done, called, hp, ?_⟩
      simp only [Prod.mk.injEq] at hrecorded
      exact hrecorded.2.2.2.symm
  · obtain ⟨problem, hrefused, -⟩ :=
      (instantiation ⟨0, []⟩ ⟨0⟩ tallying 5 0).2.1 (.inl rfl)
    exact ⟨problem, hrefused⟩

end Unit

end ResourceHost
