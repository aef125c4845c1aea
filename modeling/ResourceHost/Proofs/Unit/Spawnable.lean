import ResourceHost.Host.Basic
import ResourceHost.Proofs.Threads.Contents
import ResourceHost.Proofs.Threads.Results

/-!
# Units that can be spawned

Bytes become a unit or a package in one place, the loader of the type, which
refuses a unit that is not valid.  A reload goes through the same loader and
keeps the old on a refusal.  So unless a content is brought from outside,
whatever is listed as a unit can be spawned, and whatever is listed as a package
is a manifest: nobody who spawns a unit, or loads or unloads a package, is told
otherwise.
-/

namespace ResourceHost

/-! ### What should not be told -/

/-- Says that a content is not what it should be: that it has another shape, or
is a unit that is not valid. -/
def Failure.Unfit : Failure → Prop
  | .wrongShape _ _ | .malformedUnit _ => True
  | _ => False

/-- Does not fail so. -/
def Fit {α : Type} (o : Except Failure α) : Prop :=
  ∀ f, o = .error f → ¬ f.Unfit

theorem fit_ok {α : Type} (a : α) : Fit (.ok a : Except Failure α) := nofun

theorem fit_error {α : Type} {f : Failure} (hf : ¬ f.Unfit) :
    Fit (.error f : Except Failure α) := by
  intro f' heq
  cases heq
  exact hf

/-! ### What loaders make -/

/-- As the loader of the handle's type makes it: a unit is valid, and a package
is a manifest. -/
structure Content.Suits (content : Content) (h : Handle) : Prop where
  unit : h.type = Kind.unitType → ∃ d, content = .unit d ∧ d.validate = .ok ()
  package : h.type = Kind.packageType → ∃ m, content = .package m

/-- A load has come to a content that suits, or has failed for another
reason. -/
def Suits (s : SlotId) : Except Failure Representation → Prop
  | .ok x => x.content.Suits s.handle
  | .error f => ¬ f.Unfit

/-- Units and packages act as their kinds. -/
structure Conduct.BuiltIn (conduct : Conduct) : Prop where
  unit : ∀ k, conduct Kind.unitType k → k = Kind.unit
  package : ∀ k, conduct Kind.packageType k → k = Kind.package

theorem Unit.Description.validate_of_ofBytes {bytes : List UInt8}
    {d : Description} (h : ofBytes bytes = .ok d) : d.validate = .ok () := by
  unfold validate
  rw [(problem?_eq_none_iff d).2 (valid_of_ofBytes h)]

theorem Kind.exists_unit {h : Handle} {bytes : List UInt8} {content : Content}
    (hl : Kind.unit.load h bytes = .ok content) :
    ∃ d, content = .unit d ∧ d.validate = .ok () := by
  obtain ⟨d, hd, rfl⟩ : ∃ d, Unit.Description.ofBytes bytes = .ok d ∧
      Content.unit d = content := by
    simp only [Kind.unit] at hl
    cases hd : Unit.Description.ofBytes bytes with
    | error f => simp [hd, Except.map] at hl
    | ok d => exact ⟨d, rfl, by simpa [hd, Except.map] using hl⟩
  exact ⟨d, rfl, Unit.Description.validate_of_ofBytes hd⟩

theorem Kind.exists_package {h : Handle} {bytes : List UInt8}
    {content : Content} (hl : Kind.package.load h bytes = .ok content) :
    ∃ m, content = .package m := by
  simp only [Kind.package] at hl
  cases hm : Package.Manifest.ofBytes bytes with
  | error f => simp [hm, Except.map] at hl
  | ok m => exact ⟨m, by simpa [hm, Except.map, eq_comm] using hl⟩

section

variable {conduct : Conduct}

theorem Conduct.BuiltIn.suits (hb : conduct.BuiltIn) {h : Handle} {k : Kind}
    {bytes : List UInt8} {content : Content} (hk : conduct h.type k)
    (hl : k.load h bytes = .ok content) : content.Suits h := by
  refine ⟨fun ht => ?_, fun ht => ?_⟩
  · rw [ht] at hk
    rw [hb.unit k hk] at hl
    exact Kind.exists_unit hl
  · rw [ht] at hk
    rw [hb.package k hk] at hl
    exact Kind.exists_package hl

theorem Conduct.BuiltIn.yields (hb : conduct.BuiltIn) : conduct.Yields Suits :=
  ⟨fun _ _ => id, fun _ _ _ _ => hb.suits, fun _ _ _ _ _ _ => id⟩

/-- A reload of a unit or a package is a load. -/
theorem Conduct.BuiltIn.renews (hb : conduct.BuiltIn) :
    conduct.Renews Suits := by
  intro s k old bytes content hk _ hr
  refine ⟨fun ht => ?_, fun ht => ?_⟩
  · rw [ht] at hk
    rw [hb.unit k hk] at hr
    have hload : Kind.unit.load s.handle bytes = .ok content := hr
    exact Kind.exists_unit hload
  · rw [ht] at hk
    rw [hb.package k hk] at hr
    have hload : Kind.package.load s.handle bytes = .ok content := hr
    exact Kind.exists_package hload

end

/-! ### Spawning -/

namespace Unit

variable {σ : Type}

theorem fit_spawnGroups (components : Components σ) (world : WorldId)
    (root : EntityId) (gs : List Group) (s : σ) :
    Fit (spawnGroups components world root gs s).1 := by
  induction gs generalizing s with
  | nil => exact fit_ok _
  | cons g gs ih =>
    unfold spawnGroups
    split
    · exact fit_error id
    · split
      · exact ih _
      · exact fit_error id

/-- A valid description is spawned as far as its components allow. -/
theorem fit_spawn {d : Description} (hd : d.validate = .ok ()) (world : WorldId)
    (components : Components σ) (a : Allocator) (s : σ) :
    Fit (spawn d world components a s).1 := by
  have hgroups :=
    fit_spawnGroups components world (a.createMany d.entityCount).1 d.groups s
  unfold spawn
  rw [hd]
  dsimp only
  split
  · exact fit_ok _
  · rename_i f s' hf
    rw [hf] at hgroups
    exact fit_error (hgroups f rfl)

/-- Spawns a unit that is online, with any components. -/
def spawnOnline (world : WorldId) (unit : NameId) (components : Components σ)
    (a : Allocator) (s : σ) : Program (Except Failure EntityId) :=
  (Cache.getUnit (handle unit)).orStop fun d =>
    pure (spawn d world components a s).1

theorem spawnOnline_honest {conduct : Conduct} {hand : Hand} (world : WorldId)
    (unit : NameId) (components : Components σ) (a : Allocator) (s : σ) :
    (spawnOnline world unit components a s).Honest conduct hand := by
  refine Program.Honest.orStop ?_ fun _ _ => Program.honest_pure _ _
  refine (Cache.get_honest _).orStop fun x _ => ?_
  split <;> exact Program.honest_pure _ _

end Unit

/-- So does a host, with the components that it knows. -/
theorem Host.spawn_eq (world : WorldId) (unit : NameId) (h : Host) :
    Prod.fst <$> Host.spawn world unit h =
      Unit.spawnOnline world unit components h.entities h.transforms := by
  refine congrArg (Program.ask (.visit (Unit.handle unit) .get))
    (funext fun a => ?_)
  rcases a with f | ⟨object, content⟩
  · rfl
  · cases content <;> rfl

/-! ### What programs end with -/

/-- The answers that callers may count on, while contents suit their handles. -/
abbrev Granted : (r : Request) → r.Reply → Prop := Request.Granted Suits

open Program

theorem Program.Ensures.orStop_fit {α β : Type} {p : Program (Except Failure α)}
    {f : α → Program (Except Failure β)} (hp : p.Ensures Granted Fit)
    (hf : ∀ a, (f a).Ensures Granted Fit) :
    (p.orStop f).Ensures Granted Fit := by
  refine hp.bind fun o ho => ?_
  cases o with
  | ok a => exact hf a
  | error e => exact ensures_pure (fit_error (ho e rfl))

namespace Cache

/-- No operation on an entry fails so. -/
theorem fit_of_visit {h : Handle} {v : Visit} {a : v.Reply}
    (ha : Granted (.visit h v) a) {f : Failure} (hf : v.failure? a = some f) :
    ¬ f.Unfit := by
  rcases ha.1 f hf with rfl | ⟨cause, rfl⟩ <;> exact id

theorem get_ensures (h : Handle) :
    (get h).Ensures Granted fun o => Fit o ∧ ∀ x, o = .ok x →
      x.content.Suits h := by
  refine ensures_request fun a ha => ⟨fun f hf => ?_, fun x hx => ?_⟩
  · subst hf
    exact fit_of_visit (v := .get) ha rfl
  · subst hx
    obtain ⟨s, rfl, hs⟩ := ha.2 x rfl
    exact hs

theorem getUnit_ensures (unit : NameId) :
    (getUnit (Unit.handle unit)).Ensures Granted fun o =>
      Fit o ∧ ∀ d, o = .ok d → d.validate = .ok () := by
  refine (get_ensures _).orStop (fun f hf => ⟨fit_error hf, nofun⟩)
    fun x hx => ?_
  obtain ⟨d, hcontent, hd⟩ := hx.unit rfl
  rw [hcontent]
  refine ensures_pure ⟨fit_ok d, fun d' hd' => ?_⟩
  cases hd'
  exact hd

theorem getPackage_ensures (p : NameId) :
    (getPackage (Package.handle p)).Ensures Granted Fit := by
  refine (get_ensures _).orStop (fun f hf => fit_error hf) fun x hx => ?_
  obtain ⟨m, hcontent⟩ := hx.package rfl
  rw [hcontent]
  exact ensures_pure (fit_ok m)

theorem load_ensures (t : TypeId) (names : List NameId) :
    (load t names).Ensures Granted Fit := by
  have hacquire : ∀ (k : Kind) (names : List NameId),
      (acquireAll t k names).Ensures Granted Fit := by
    intro k names
    induction names with
    | nil => exact ensures_pure (fit_ok _)
    | cons n ns ih =>
      refine (ensures_request fun a ha f hf => ?_).orStop_fit fun _ => ih
      obtain ⟨s, -, hs⟩ := ha f hf
      exact hs
  unfold load
  split
  · exact ensures_pure (fit_ok _)
  · refine Ensures.orStop_fit ?_ fun k => hacquire k names
    refine (ensures_request fun _ _ => trivial).bind fun kind? (_ : True) => ?_
    cases kind? with
    | none => exact ensures_pure (fit_error id)
    | some k => exact ensures_pure (fit_ok k)

theorem unloadAll_ensures (t : TypeId) (names : List NameId) :
    (unloadAll t names).Ensures Granted Fit := by
  induction names with
  | nil => exact ensures_pure (fit_ok _)
  | cons n ns ih =>
    refine (ensures_request fun a ha f hf => ?_).orStop_fit fun _ => ih
    subst hf
    exact fit_of_visit (v := .unload) ha rfl

end Cache

theorem Unit.spawnOnline_ensures {σ : Type} (world : WorldId) (unit : NameId)
    (components : Components σ) (a : Allocator) (s : σ) :
    (spawnOnline world unit components a s).Ensures Granted Fit :=
  (Cache.getUnit_ensures unit).orStop (fun _ hf => fit_error hf) fun _ hd =>
    ensures_pure (fit_spawn hd world components a s)

namespace Package

theorem loadGroups_ensures (gs : List Group) :
    (loadGroups gs).Ensures Granted Fit := by
  induction gs with
  | nil => exact ensures_pure (fit_ok _)
  | cons g gs ih =>
    exact (Cache.load_ensures g.type g.names).orStop_fit fun _ => ih

/-- Neither the scheduling nor the loading fails so. -/
theorem schedule_ensures (p : NameId) :
    (schedule p).Ensures Granted fun o => Fit o ∧ ∀ inner, o = .ok inner →
      Fit inner := by
  refine (Cache.getPackage_ensures p).bind fun o ho => ?_
  cases o with
  | error f => exact ensures_pure ⟨fit_error (ho f rfl), nofun⟩
  | ok m =>
    refine (loadGroups_ensures m.groups).bind fun inner hinner =>
      ensures_pure ⟨fit_ok inner, ?_⟩
    intro inner' heq
    cases heq
    exact hinner

theorem unloadGroups_ensures (gs : List Group) :
    (unloadGroups gs).Ensures Granted Fit := by
  induction gs with
  | nil => exact ensures_pure (fit_ok _)
  | cons g gs ih =>
    exact (ensures_true _).bind fun unused _ =>
      (Cache.unloadAll_ensures g.type unused).orStop_fit fun _ => ih

theorem unload_ensures (p : NameId) : (unload p).Ensures Granted Fit :=
  (Cache.getPackage_ensures p).orStop_fit fun m => unloadGroups_ensures m.groups

end Package

/-! ### Along a course -/

namespace Machine

variable {α : Type} {conduct : Conduct} {m₀ m : Machine α} {es : List Event}

/-- A thread that ends with a program of which `S` is true, whatever it does
before, ends with what it makes of a result of which `Q` is true. -/
def Ends (m₀ m : Machine α) {β : Type} (S : Program β → Prop) (Q : β → Prop) :
    Prop :=
  ∀ (i : Nat) {γ : Type} (before : Program γ) (p : γ → Program β)
    (finish : γ → β → α), (∀ c, S (p c)) →
    m₀.threads[i]? = some (.ofProgram (before >>= fun c => finish c <$> p c)) →
    ∀ a, m.threads[i]? = some (.finished a) → ∃ c b, a = finish c b ∧ Q b

theorem Course.ends (hr : Course conduct m₀ es m) {β : Type}
    {S : Program β → Prop} {Q : β → Prop}
    (hA : ∀ j r a, Event.answered j r a ∈ es → Granted r a)
    (hS : ∀ p, S p → p.Ensures Granted Q) : Ends m₀ m S Q := by
  intro i γ before p finish hp hi a ha
  have hprogram : (before >>= fun c => finish c <$> p c).Ensures
    Granted fun a =>
      ∃ c b, a = finish c b ∧ Q b :=
    (ensures_true before).bind fun c _ => (hS _ (hp c)).bind fun b hb =>
      ensures_pure ⟨c, b, rfl, hb⟩
  obtain ⟨t, ht, htens⟩ :=
    hr.ensures hi (Thread.ensures_ofProgram hprogram) (hA i)
  cases ht.symm.trans ha
  exact htens

/-- While no unit and no package is brought from outside the cache, every unit
that is loaded is valid and every package that is loaded is a manifest.  So
whoever asks for a package is given a manifest, if anything; nobody who spawns a
unit is told that it is malformed or has another shape; and nobody who loads or
unloads a package is. -/
theorem contents_suit (h₀ : m₀.Starts conduct) (hr : Course conduct m₀ es m)
    (hb : conduct.BuiltIn)
    (hadd : ∀ x, Event.befell (.brought x) ∈ es →
      x.object.slot.handle.type ≠ Kind.unitType ∧
      x.object.slot.handle.type ≠ Kind.packageType) :
    (∀ s, (m.cache.entry s).state = .online ∨
      (m.cache.entry s).state = .offline →
      (s.handle.type = Kind.unitType → ∃ x d, (m.cache.entry s).held = some x ∧
        x.content = .unit d ∧ d.validate = .ok ()) ∧
      (s.handle.type = Kind.packageType →
        ∃ x manifest, (m.cache.entry s).held = some x ∧
        x.content = .package manifest)) ∧
    (∀ (i : Nat) (p : NameId) (a : Except Failure Representation),
      Event.answered i (.visit (Package.handle p) .get) a ∈ es →
        (∃ f, a = .error f ∧ ¬ f.Unfit) ∨
        ∃ x manifest, a = .ok x ∧ x.content = .package manifest) ∧
    Ends m₀ m (fun p => ∃ (σ : Type) (world : WorldId) (unit : NameId)
      (components : Components σ) (entities : Allocator) (s : σ),
        p = Unit.spawnOnline world unit components entities s) Fit ∧
    Ends m₀ m (fun p => ∃ name, p = Package.schedule name)
      (fun o => Fit o ∧ ∀ inner, o = .ok inner → Fit inner) ∧
    Ends m₀ m (fun p => ∃ name, p = Package.unload name) Fit := by
  have hbrought : ∀ x, Event.befell (.brought x) ∈ es →
      Suits x.object.slot (.ok x) := by
    intro x hx
    obtain ⟨hunit, hpackage⟩ := hadd x hx
    exact ⟨fun ht => absurd ht hunit, fun ht => absurd ht hpackage⟩
  obtain ⟨hentries, -, hanswers⟩ := hr.stores h₀ hb.yields hb.renews hbrought
  refine ⟨fun s hs => ?_, fun i p a hmem => ?_, hr.ends hanswers ?_,
    hr.ends hanswers ?_, hr.ends hanswers ?_⟩
  · obtain ⟨x, hx⟩ := Option.isSome_iff_exists.1 ((hentries s).full hs)
    have hsuits := (hentries s).held x hx
    constructor
    · intro ht
      obtain ⟨d, hcontent, hd⟩ := hsuits.unit ht
      exact ⟨x, d, hx, hcontent, hd⟩
    · intro ht
      obtain ⟨manifest, hcontent⟩ := hsuits.package ht
      exact ⟨x, manifest, hx, hcontent⟩
  · obtain ⟨hfit, hgiven⟩ := Cache.get_ensures (Package.handle p) a
      (hanswers i (.visit (Package.handle p) .get) a hmem)
    cases a with
    | error f => exact .inl ⟨f, rfl, hfit f rfl⟩
    | ok x =>
      obtain ⟨manifest, hcontent⟩ := (hgiven x rfl).package rfl
      exact .inr ⟨x, manifest, rfl, hcontent⟩
  · rintro _ ⟨σ, world, unit, components, entities, s, rfl⟩
    exact Unit.spawnOnline_ensures world unit components entities s
  · rintro _ ⟨name, rfl⟩
    exact Package.schedule_ensures name
  · rintro _ ⟨name, rfl⟩
    exact Package.unload_ensures name

/-! ### A unit that is spawned, and packages that list it -/

/-- The unit of an actor. -/
def actor : NameId := Id.ofName "actor"

/-- Two packages that list the actor. -/
def level : NameId := Id.ofName "level"

def extras : NameId := Id.ofName "extras"

/-- Two entities with transforms. -/
def actorText : String :=
  "\x7b\"entity_count\":2,\"groups\":[\x7b\"component\":\"transform\"," ++
    "\"entities\":[1,0],\"records\":[\x7b\x7d,\x7b\x7d]\x7d]\x7d"

def listingText : String := "\x7b\"unit\":[\"actor\"]\x7d"

/-- A unit without entities, which is not valid. -/
def emptyText : String := "\x7b\"entity_count\":0\x7d"

/-- The source that has the actor and the packages. -/
def actorSource : Source :=
  .memory (((Table.empty.put (Unit.handle actor) (Text.toBytes actorText)).put
    (Package.handle level) (Text.toBytes listingText)).put
    (Package.handle extras) (Text.toBytes listingText))

/-- Loads the actor and spawns it. -/
def spawnActor : Program (Except Failure Unit) :=
  Cache.load Kind.unitType [actor] >>= fun _ =>
    (fun o => o.map fun _ => ()) <$>
      Unit.spawnOnline ⟨0⟩ actor
        (Table.empty.put (Id.ofName "transform") Transforms.spawner)
        {} Table.empty

/-- Offers the actor bytes that are no valid unit. -/
def reloadActor : Program (Except Failure Unit) :=
  Cache.reload (Unit.handle actor) (Text.toBytes emptyText)

/-- Loads a package with all that it lists. -/
def loadLevel : Program (Except Failure Unit) :=
  Cache.load Kind.packageType [level] >>= fun _ =>
    (fun o => o.bind id) <$> Package.schedule level

/-- Loads a package with all that it lists, and unloads it. -/
def unloadExtras : Program (Except Failure Unit) :=
  (Cache.load Kind.packageType [extras] >>= fun _ =>
    Package.schedule extras) >>= fun _ =>
    id <$> Package.unload extras

/-- Those who use the actor, on a cache with the built-in types. -/
def actorUsers : Machine (Except Failure Unit) where
  cache := { kinds := ⟨Kind.builtin⟩, source := actorSource }
  threads :=
    [spawnActor, reloadActor, loadLevel, unloadExtras].map Thread.ofProgram

/-- Every type acts as the kind that is built in for it. -/
def builtinConduct : Conduct := fun t k => Table.get? ⟨Kind.builtin⟩ t = some k

theorem builtIn_builtinConduct : builtinConduct.BuiltIn := by
  have hne : Kind.packageType ≠ Kind.unitType := by decide +kernel
  refine ⟨fun k hk => ?_, fun k hk => ?_⟩
  · have hunit : Table.get? ⟨Kind.builtin⟩ Kind.unitType = some Kind.unit := by
      simp [Table.get?, Kind.builtin, Table.find, hne]
    exact Option.some.inj (Eq.symm hk |>.trans hunit)
  · have hpackage : Table.get? ⟨Kind.builtin⟩ Kind.packageType =
        some Kind.package := by
      simp [Table.get?, Kind.builtin, Table.find]
    exact Option.some.inj (Eq.symm hk |>.trans hpackage)

theorem starts_actorUsers : actorUsers.Starts builtinConduct := by
  refine starts_of_kinds (fun _ _ hk => hk) fun p hp => ?_
  have hcases : p = spawnActor ∨ p = reloadActor ∨ p = loadLevel ∨
      p = unloadExtras := by
    simpa using hp
  rcases hcases with rfl | rfl | rfl | rfl
  · exact (Cache.load_honest _ _).bind fun _ _ =>
      (Unit.spawnOnline_honest _ _ _ _ _).bind fun _ _ => honest_pure _ _
  · exact Cache.reload_honest _ _
  · exact (Cache.load_honest _ _).bind fun _ _ =>
      (Package.schedule_honest _).bind fun _ _ => honest_pure _ _
  · exact ((Cache.load_honest _ _).bind fun _ _ =>
      Package.schedule_honest _).bind fun _ _ =>
      (Package.unload_honest _).bind fun _ _ => honest_pure _ _

/-- Says that something is brought from outside the cache. -/
def isBrought : Event → Bool
  | .befell (.brought _) => true
  | _ => false

/-- Says that a package is given to whoever asks for it. -/
def isGiven (p : NameId) : Event → Bool
  | .answered _ (.visit h .get) a => h = Package.handle p && a.isOk
  | _ => false

/-- Whether a thread is through. -/
def isThrough : Thread (Except Failure Unit) → Bool
  | .finished _ => true
  | .busy _ _ _ => false

/-- Whether a thread was told that a unit without entities is no replacement. -/
def isRefused : Thread (Except Failure Unit) → Bool
  | .finished (.error (.reload h (.malformedUnit .noEntities))) =>
    h = Unit.handle actor
  | _ => false

theorem exists_of_isThrough {t? : Option (Thread (Except Failure Unit))}
    (h : t?.any isThrough = true) : ∃ o, t? = some (.finished o) := by
  obtain ⟨t, rfl, ht⟩ := (Option.any_eq_true _ _).1 h
  cases t with
  | finished o => exact ⟨o, rfl⟩
  | busy r p next => cases ht

theorem exists_of_isGiven {p : NameId} {es : List Event}
    (h : es.any (isGiven p) = true) :
    ∃ i x, Event.answered i (.visit (Package.handle p) .get) (.ok x) ∈ es := by
  obtain ⟨e, hmem, he⟩ := List.any_eq_true.1 h
  unfold isGiven at he
  split at he
  · rename_i i h a
    rw [Bool.and_eq_true, decide_eq_true_eq] at he
    obtain ⟨rfl, hok⟩ := he
    cases a with
    | error f => cases hok
    | ok x => exact ⟨i, x, hmem⟩
  · cases he

/-- The actor is loaded, keeps its groups when it is offered a unit without
entities, and is spawned; then one package is loaded, and another one is loaded
and unloaded. -/
theorem contents_suit_of_actorUsers :
    actorUsers.Starts builtinConduct ∧ builtinConduct.BuiltIn ∧
      ∃ (es : List Event) (m : Machine (Except Failure Unit))
        (spawned : Except Failure EntityId)
          (scheduled : Except Failure (Except Failure Unit))
            (unloaded : Except Failure Unit),
        Course builtinConduct actorUsers es m ∧
          (∀ e ∈ es, isBrought e = false) ∧
          m.threads[0]? = some (.finished (spawned.map fun _ => ())) ∧
          Fit spawned ∧
          m.threads[1]?.any isRefused = true ∧
          m.threads[2]? = some (.finished (scheduled.bind id)) ∧ Fit scheduled ∧
          m.threads[3]? = some (.finished unloaded) ∧ Fit unloaded ∧
          (∃ x d, (m.cache.entry ⟨Unit.handle actor, 0⟩).held = some x ∧
            x.content = .unit d ∧ d.validate = .ok () ∧ d.groups.length = 1) ∧
          (∃ x manifest, (m.cache.entry ⟨Package.handle level, 0⟩).held =
              some x ∧
            x.content = .package manifest) ∧
          ∃ i x manifest,
            Event.answered i (.visit (Package.handle level) .get) (.ok x) ∈ es ∧
            x.content = .package manifest := by
  have hrun := exists_course builtinConduct actorUsers
    (List.replicate 29 3 ++ List.replicate 21 2 ++ List.replicate 4 0 ++
      List.replicate 12 1 ++
      List.replicate 11 0)
    (P := fun es m =>
      (∀ e ∈ es, isBrought e = false) ∧ es.any (isGiven level) ∧
        m.threads[0]?.any isThrough ∧ m.threads[1]?.any isRefused ∧
        m.threads[2]?.any isThrough ∧ m.threads[3]?.any isThrough ∧
        (m.cache.entry ⟨Unit.handle actor, 0⟩).state = .online ∧
        (m.cache.entry ⟨Unit.handle actor, 0⟩).held.any (fun x =>
          x.content.asUnit?.any fun d => d.groups.length = 1) ∧
        (m.cache.entry ⟨Package.handle level, 0⟩).state = .online)
    (by decide +kernel)
  obtain ⟨es, m, hr, hP⟩ := hrun
  obtain ⟨hbrought, hgiven, hspawner, hrefused, hscheduler, hunloader, hactor,
      hgroups, hlevel⟩ :=
    of_decide_eq_true hP
  obtain ⟨_, hspawner⟩ := exists_of_isThrough hspawner
  obtain ⟨_, hscheduler⟩ := exists_of_isThrough hscheduler
  obtain ⟨unloaded, hunloader⟩ := exists_of_isThrough hunloader
  obtain ⟨i, x, hasked⟩ := exists_of_isGiven hgiven
  obtain ⟨hentries, hanswers, hspawn, hschedule, hunload⟩ :=
    contents_suit starts_actorUsers hr builtIn_builtinConduct fun x hx => by
      cases hbrought _ hx
  obtain ⟨_, spawned, rfl, hspawned⟩ :=
    hspawn 0 (Cache.load Kind.unitType [actor])
      (fun _ => Unit.spawnOnline ⟨0⟩ actor
        (Table.empty.put (Id.ofName "transform") Transforms.spawner) {}
          Table.empty)
    (fun _ o => o.map fun _ => ()) (fun _ => ⟨Transforms, _, _, _, _, _, rfl⟩)
      rfl _ hspawner
  obtain ⟨_, scheduled, rfl, hscheduled, -⟩ :=
    hschedule 2 (Cache.load Kind.packageType [level])
      (fun _ => Package.schedule level) (fun _ o => o.bind id)
        (fun _ => ⟨_, rfl⟩) rfl _ hscheduler
  obtain ⟨_, _, rfl, hunloaded⟩ := hunload 3
    (Cache.load Kind.packageType [extras] >>= fun _ => Package.schedule extras)
    (fun _ => Package.unload extras) (fun _ => id) (fun _ => ⟨_, rfl⟩) rfl _
      hunloader
  obtain ⟨y, d, hheld, hcontent, hvalid⟩ := (hentries _ (.inl hactor)).1 rfl
  have hlength : d.groups.length = 1 := by
    simpa [hheld, hcontent, Content.asUnit?] using hgroups
  have hgot : ∃ manifest, x.content = .package manifest := by
    rcases hanswers i level (.ok x) hasked with
      ⟨f, hf, -⟩ | ⟨x', manifest, hx, hmanifest⟩
    · cases hf
    · cases hx
      exact ⟨manifest, hmanifest⟩
  obtain ⟨manifest, hmanifest⟩ := hgot
  exact ⟨starts_actorUsers, builtIn_builtinConduct, es, m, spawned, scheduled,
    unloaded, hr, hbrought, hspawner, hspawned, hrefused, hscheduler,
    hscheduled, hunloader, hunloaded,
    ⟨y, d, hheld, hcontent, hvalid, hlength⟩, (hentries _ (.inl hlevel)).2 rfl,
    i, x, manifest, hasked, hmanifest⟩

end Machine

end ResourceHost
