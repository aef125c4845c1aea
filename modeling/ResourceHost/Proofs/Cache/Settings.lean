import ResourceHost.Package.Loading

/-!
# The settings of a cache

Which types a cache knows, where its bytes come from and whether it loads what
is missing on first use are its settings.  Only two requests touch them: to
register a type, and to switch the loading on first use on or off.  A program
that asks neither is `Modest`, and leaves the settings alone; all operations on
resources and packages are.
-/

namespace ResourceHost

/-- Does not ask to change the settings. -/
def Request.Modest : Request → Prop
  | .register _ _ | .setAutoload _ => False
  | _ => True

namespace Cache

/-- Two caches have the same settings. -/
structure SameSettings (c c' : Cache) : Prop where
  kinds : c'.kinds = c.kinds
  source : c'.source = c.source
  autoload : c'.autoload = c.autoload

variable {c c' c'' : Cache}

theorem SameSettings.refl (c : Cache) : SameSettings c c := ⟨rfl, rfl, rfl⟩

theorem SameSettings.trans (h : SameSettings c c') (h' : SameSettings c' c'') :
    SameSettings c c'' :=
  ⟨h'.kinds.trans h.kinds, h'.source.trans h.source,
    h'.autoload.trans h.autoload⟩

theorem SameSettings.kind? (h : SameSettings c c') (t : TypeId) :
    c'.kind? t = c.kind? t := by
  rw [Cache.kind?, Cache.kind?, h.kinds]

theorem sameSettings_carryOut {α : Type} (c : Cache) (s : SlotId)
    (sec : Section α) : SameSettings c (c.carryOut s sec) := by
  unfold carryOut evict
  dsimp only
  split
  · split <;> exact ⟨rfl, rfl, rfl⟩
  · exact ⟨rfl, rfl, rfl⟩

theorem sameSettings_fetch (c : Cache) (s : SlotId) (k : Kind) :
    SameSettings c (c.fetch s k).2 := by
  unfold fetch
  split
  · exact .refl c
  · split <;> exact ⟨rfl, rfl, rfl⟩

theorem sameSettings_loadFresh (c : Cache) (h : Handle) (k : Kind) :
    SameSettings c (c.loadFresh h k).2 :=
  have hopen : SameSettings c (c.openSlot h) := ⟨rfl, rfl, rfl⟩
  (hopen.trans (sameSettings_fetch _ _ k)).trans (sameSettings_carryOut _ _ _)

theorem sameSettings_visit (c : Cache) (h : Handle) (v : Visit) :
    SameSettings c (c.visit h v).2 := by
  unfold visit
  split
  · exact .refl c
  · exact sameSettings_carryOut c _ _

/-- A modest request leaves the settings alone. -/
theorem sameSettings_request {r : Request} (hr : r.Modest) (c : Cache) :
    SameSettings c (r.run c).2 := by
  cases r with
  | register t k => exact hr.elim
  | setAutoload on => exact hr.elim
  | acquire h k =>
    show SameSettings c (c.acquire h k).2
    unfold acquire
    split
    · exact sameSettings_loadFresh c h k
    · split
      · exact sameSettings_carryOut c _ _
      · exact sameSettings_loadFresh c h k
  | add h k content =>
    show SameSettings c (c.add h k content).2
    have hopen : SameSettings c (c.openSlot h) := ⟨rfl, rfl, rfl⟩
    unfold add
    split
    · exact .refl c
    · dsimp only
      exact hopen.trans (sameSettings_carryOut _ _ _)
  | visit h v => exact sameSettings_visit c h v
  | _ => exact .refl c

end Cache

/-! ### Modest programs -/

namespace Program

variable {α β : Type}

/-- Every request of the program is modest, whatever the answers are. -/
def Modest : Program α → Prop
  | .done _ => True
  | .ask r next => r.Modest ∧ ∀ a, (next a).Modest

theorem Modest.sameSettings {p : Program α} (hp : p.Modest) (c : Cache) :
    c.SameSettings (p.run c).2 := by
  induction p generalizing c with
  | done a => exact .refl c
  | ask r next ih =>
    exact (Cache.sameSettings_request hp.1 c).trans (ih _ (hp.2 _) _)

theorem modest_pure (a : α) : (pure a : Program α).Modest := trivial

theorem modest_request {r : Request} (hr : r.Modest) : (request r).Modest :=
  ⟨hr, fun _ => trivial⟩

theorem Modest.bind {p : Program α} {f : α → Program β} (hp : p.Modest)
    (hf : ∀ a, (f a).Modest) : (p >>= f).Modest := by
  show (p.andThen f).Modest
  induction p with
  | done a => exact hf a
  | ask r next ih => exact ⟨hp.1, fun a => ih a (hp.2 a)⟩

theorem Modest.orStop {p : Program (Except Failure α)}
    {f : α → Program (Except Failure β)} (hp : p.Modest)
    (hf : ∀ a, (f a).Modest) : (p.orStop f).Modest := by
  refine hp.bind fun o => ?_
  cases o with
  | ok a => exact hf a
  | error f => exact modest_pure _

end Program

namespace Cache

open Program

theorem visit_modest (h : Handle) (v : Visit) : (request (.visit h v)).Modest :=
  modest_request trivial

theorem load_modest (t : TypeId) (names : List NameId) :
    (load t names).Modest := by
  have hacquire : ∀ (k : Kind) (names : List NameId),
      (acquireAll t k names).Modest := by
    intro k names
    induction names with
    | nil => exact modest_pure _
    | cons n ns ih =>
      exact (modest_request (r := .acquire ⟨t, n⟩ k) trivial).orStop fun _ => ih
  unfold load
  split
  · exact modest_pure _
  · refine Modest.orStop ((modest_request (r := .kind t) trivial).bind
        fun k? => ?_)
      fun k => hacquire k names
    cases k? <;> exact modest_pure _

theorem getOrLoad_modest (h : Handle) : (getOrLoad h).Modest := by
  refine (modest_request (r := .autoload) trivial).bind fun on => ?_
  split
  · refine (modest_request (r := .isListed h) trivial).bind fun listed => ?_
    split
    · exact visit_modest h .get
    · exact (load_modest h.type [h.name]).orStop fun _ => visit_modest h .get
  · exact visit_modest h .get

theorem getUnit_modest (h : Handle) : (getUnit h).Modest := by
  refine (visit_modest h .get).orStop fun r => ?_
  split <;> exact modest_pure _

theorem getPackage_modest (h : Handle) : (getPackage h).Modest := by
  refine (visit_modest h .get).orStop fun r => ?_
  split <;> exact modest_pure _

theorem canGet_modest (h : Handle) : (canGet h).Modest :=
  (visit_modest h .state).bind fun _ => modest_pure _

theorem canGetAll_modest (t : TypeId) (names : List NameId) :
    (canGetAll t names).Modest := by
  induction names with
  | nil => exact modest_pure _
  | cons n ns ih =>
    refine (canGet_modest _).bind fun b => ?_
    split
    · exact ih
    · exact modest_pure _

theorem stats_modest : stats.Modest := by
  have hcount : ∀ (ss : List SlotId) (s : Stats), (countSlots ss s).Modest := by
    intro ss
    induction ss with
    | nil => exact fun s => modest_pure _
    | cons s rest ih => exact fun _ =>
      (modest_request (r := .stateOf s) trivial).bind fun _ => ih _
  exact (modest_request (r := .slots) trivial).bind fun ss => hcount ss {}

theorem reloadFromSource_modest (t : TypeId) (names : List NameId) :
    (reloadFromSource t names).Modest := by
  induction names with
  | nil => exact modest_pure _
  | cons n ns ih =>
    refine Modest.orStop ((modest_request (r := .read ⟨t, n⟩) trivial).bind
        fun a => ?_)
      fun bytes => (visit_modest _ (.reload bytes)).orStop fun _ => ih
    cases a <;> exact modest_pure _

theorem reloadAll_modest : reloadAll.Modest := by
  have heach : ∀ (hs : List Handle) (report : ReloadReport),
      (reloadEach hs report).Modest := by
    intro hs
    induction hs with
    | nil => exact fun report => modest_pure _
    | cons h hs ih =>
      intro report
      refine (visit_modest h .state).bind fun s => ?_
      split
      · refine (reloadFromSource_modest _ _).bind fun o => ?_
        cases o <;> exact ih _
      · exact ih report
  exact (modest_request (r := .handles) trivial).bind fun hs =>
    heach (Handle.sort hs) {}

theorem unloadAll_modest (t : TypeId) (names : List NameId) :
    (unloadAll t names).Modest := by
  induction names with
  | nil => exact modest_pure _
  | cons n ns ih => exact (visit_modest _ .unload).orStop fun _ => ih

end Cache

namespace Package

open Program

theorem schedule_modest (p : NameId) : (schedule p).Modest := by
  have hgroups : ∀ gs : List Group, (loadGroups gs).Modest := by
    intro gs
    induction gs with
    | nil => exact modest_pure _
    | cons g gs ih =>
      exact (Cache.load_modest g.type g.names).orStop fun _ => ih
  exact (Cache.getPackage_modest (handle p)).orStop fun m =>
    (hgroups m.groups).bind fun _ => modest_pure _

theorem isLoaded_modest (p : NameId) : (isLoaded p).Modest := by
  have hgroups : ∀ gs : List Group, (groupsLoaded gs).Modest := by
    intro gs
    induction gs with
    | nil => exact modest_pure _
    | cons g gs ih =>
      refine (Cache.canGetAll_modest g.type g.names).bind fun b => ?_
      split
      · exact ih
      · exact modest_pure _
  refine (Cache.getPackage_modest (handle p)).bind fun o => ?_
  cases o with
  | ok m => exact hgroups m.groups
  | error f => exact modest_pure _

theorem releaseAll_modest (t : TypeId) (unused ns : List NameId) :
    (releaseAll t unused ns).Modest := by
  induction ns generalizing unused with
  | nil => exact modest_pure _
  | cons n ns ih =>
    refine (Cache.visit_modest ⟨t, n⟩ .release).bind fun o => ?_
    split <;> exact ih _

theorem unload_modest (p : NameId) : (unload p).Modest := by
  have hgroups : ∀ gs : List Group, (unloadGroups gs).Modest := by
    intro gs
    induction gs with
    | nil => exact modest_pure _
    | cons g gs ih =>
      exact (releaseAll_modest g.type [] g.names).bind fun unused =>
        (Cache.unloadAll_modest g.type unused).orStop fun _ => ih
  exact (Cache.getPackage_modest (handle p)).orStop fun m => hgroups m.groups

end Package

end ResourceHost
