import ResourceHost.Proofs.Cache.Listing
import ResourceHost.Proofs.Cache.Refresh
import ResourceHost.Proofs.Host.Autoload
import ResourceHost.Proofs.Host.Packages
import ResourceHost.Proofs.Package.Flush

/-!
# Boot and shutdown

A boot fills an empty cache with the boot package: one reference for the
package, one for each of its listings, and nothing else.  A line that asks for
no package to be loaded or unloaded, and does not switch loading on first use
on, keeps it so: it can at most reload what is there, and the package is
reloaded as the same manifest.  A shutdown then takes away exactly what the boot
brought.
-/

namespace ResourceHost

open Cache Package

/-! ### Stocked caches -/

theorem Entry.Gains.online {n : Nat} {e : Entry} (h : Gains n none (some e)) :
    e.state = .online := by
  cases h with
  | loaded hd hs hn => exact hs

theorem Entry.Gains.refreshed {n : Nat} {e e' : Entry} {h : Handle}
    {kind? : Option Kind} {bytes : List UInt8} (hg : Gains n none (some e))
    (hr : e.Refreshed h kind? bytes e') : Gains n none (some e') := by
  cases hg with
  | loaded hd hs hn =>
    exact .loaded (hr.loaded hd) (hr.online hs) (hr.refCount.trans hn)

/-- What is made of the new bytes is what the entry held: nothing changes in
what it holds. -/
theorem Entry.Refreshed.holds {h : Handle} {k : Kind} {kind? : Option Kind}
    {bytes : List UInt8} {e e' : Entry} {content : Content}
    (hr : e.Refreshed h kind? bytes e') (hk : kind? = some k)
    (hreload : ∀ old, k.reload h old bytes = .ok content)
    (he : ∃ r, e.held = some r ∧ r.content = content) :
    ∃ r, e'.held = some r ∧ r.content = content := by
  cases hr with
  | kept => exact he
  | @renewed k' old r hk' hr =>
    cases hk.symm.trans hk'
    exact ⟨r, rfl, Except.ok.inj (hr.symm.trans (hreload old))⟩

/-- The cache holds a package with its listings, by one reference for the
package and one for each listing, and nothing else.  The package is what the
source has for it. -/
structure Cache.Stocked (p : NameId) (man : Manifest) (c : Cache) : Prop where
  calm : c.Calm
  kind : c.kind? Kind.packageType = some Kind.package
  supplied : c.Supplies (handle p) Kind.package (.package man)
  manifest : (manifest p).run c = (.ok man, c)
  counts : ∀ h,
    Entry.Gains ((handle p :: man.handles).count h) none (c.lookup? h)

namespace Cache.Stocked

variable {p : NameId} {man : Manifest} {c c' : Cache}

theorem withAutoload (hs : c.Stocked p man) (on : Bool) :
    ({ c with autoload := on } : Cache).Stocked p man :=
  ⟨hs.calm.withAutoload on, hs.kind, hs.supplied,
    run_manifest_withAutoload hs.calm hs.manifest on, hs.counts⟩

/-- Whatever entry is reloaded, the cache stays stocked: the source has the same
manifest. -/
theorem refreshes {x : Handle} (hs : c.Stocked p man)
    (hsettings : c.SameSettings c') (hx : c.Refreshes x c') :
    c'.Stocked p man := by
  obtain ⟨e, e', bytes, hl, hread, hr, hl'⟩ := hx.exists_entry
  obtain ⟨bytes', hsource, hload⟩ := hs.supplied
  refine ⟨hx.calm, (hsettings.kind? _).trans hs.kind, ⟨bytes', ?_, hload⟩, ?_,
    fun h => ?_⟩
  · rw [hsettings.source]
    exact hsource
  · obtain ⟨e₀, r₀, hl₀, hon, hr₀, hman⟩ :=
      held_of_run_manifest hs.calm hs.manifest
    by_cases hp : handle p = x
    · subst hp
      cases hl₀.symm.trans hl
      cases hread.symm.trans hsource
      obtain ⟨r, hheld, hcontent⟩ :=
        hr.holds hs.kind (fun _ => hload) ⟨r₀, hr₀, hman⟩
      exact run_manifest_of_held hx.calm hl' (hr.online hon) hheld hcontent
    · exact run_manifest_of_held hx.calm ((hx.others _ hp).trans hl₀)
        hon hr₀ hman
  · by_cases hh : h = x
    · subst hh
      have hcount := hs.counts h
      rw [hl] at hcount
      rw [hl']
      exact hcount.refreshed hr
    · rw [hx.others h hh]
      exact hs.counts h

theorem reloadAll (hs : c.Stocked p man) :
    (Cache.reloadAll.run c).2.Stocked p man :=
  reloadAll_keeps (fun hs => hs.calm) (fun hs hsettings hx =>
    hs.refreshes hsettings hx) hs

end Cache.Stocked

/-! ### What only looks -/

namespace Cache

variable {c : Cache}

theorem snd_run_stats (c : Cache) : (stats.run c).2 = c := by
  have hcount : ∀ (ss : List SlotId) (s : Stats),
      ((countSlots ss s).run c).2 = c := by
    intro ss
    induction ss with
    | nil => exact fun _ => rfl
    | cons s rest ih => exact fun stats => ih (stats.count (c.entry s).state)
  exact hcount c.slots {}

theorem Calm.snd_run_getUnit (hc : c.Calm) (h : Handle) :
    ((getUnit h).run c).2 = c := by
  rw [getUnit, Program.run_orStop, hc.run_get]
  cases (c.lookup? h).elim (.error (.notLoaded h)) (Entry.get h) with
  | error f => rfl
  | ok r => cases hd : r.content.asUnit? <;> simp [hd]

theorem Calm.snd_run_isLoaded (hc : c.Calm) (p : NameId) :
    ((isLoaded p).run c).2 = c := by
  rw [isLoaded, Program.run_bind, hc.run_manifest]
  dsimp only
  split
  · rw [hc.run_groupsLoaded]
  · rfl

/-- What is missing is not loaded on first use if that is switched off. -/
theorem Calm.snd_run_getOrLoad (hc : c.Calm) (hlazy : c.autoload = false)
    (h : Handle) : ((getOrLoad h).run c).2 = c := by
  have hrun : (getOrLoad h).run c = (Cache.get h).run c := by
    rw [getOrLoad, Program.run_bind]
    show (if c.autoload = true then _ else _ : Program _).run c = _
    rw [if_neg (by simp [hlazy])]
  rw [hrun, hc.run_get]

end Cache

namespace Host

open Console

variable {config : Config} {source : Source} {p : NameId} {man : Manifest}
  {s s' : Scene}

/-! ### Boot -/

/-- The boot package is stocked in a cache that knows packages and has nothing
else. -/
theorem stocked_of_bootPackage (hempty : ∀ h, s.cache.lookup? h = none)
    (hc : s.cache.Calm)
    (hkind : s.cache.kind? Kind.packageType = some Kind.package)
    (hplay : play (bootPackage config) s = (.ok (), s')) :
    ∃ man, s'.cache.Stocked (Id.ofName config.bootPackage) man := by
  have hsettings := (bootPackage_steady config s).settings
  rw [hplay] at hsettings
  obtain ⟨⟨⟩, s₁, hload, hrest⟩ := play_orStop_eq_ok hplay
  obtain ⟨⟨⟩, s₂, hschedule, hflush⟩ := play_orStop_eq_ok hrest
  obtain ⟨hload, hhost⟩ := play_doing_eq (play_explaining_eq_ok hload)
  obtain ⟨o, hrun, hpending⟩ := play_schedule hschedule
  -- The flush finds no failure, so the load that was scheduled went well.
  have hreport : (s₂.host.pending.flush (Id.ofName config.bootPackage)).1 =
      .ok () :=
    congrArg Prod.fst hflush
  rw [hpending] at hreport
  obtain rfl : o = .ok () := Pending.ok_of_flush_add hreport
  have hcache : s₂.cache = s'.cache := congrArg (fun r => r.2.cache) hflush
  rw [hcache] at hrun
  obtain ⟨man, hman, htook₁, htook₂⟩ := took_of_load hc hload hrun
  refine ⟨man, htook₂.calm, (hsettings.kind? _).trans hkind, ?_, hman,
    fun h => ?_⟩
  · -- The package still holds what was loaded first.
    obtain ⟨k, e, r, hk, hl, hr, bytes, hread, hload⟩ :=
      hc.supplied_of_load (hempty (handle (Id.ofName config.bootPackage))) hload
    obtain rfl : k = Kind.package := Option.some.inj (hk.symm.trans hkind)
    obtain ⟨e', r', hl', -, hr', hcontent⟩ :=
      held_of_run_manifest htook₂.calm hman
    have hjoined := htook₂.gains (handle (Id.ofName config.bootPackage))
    rw [hl] at hjoined
    cases hl'.symm.trans hjoined.eq_joined
    cases hr.symm.trans hr'
    rw [← hcontent]
    exact ⟨bytes, by rw [hsettings.source]; exact hread, hload⟩
  · have hg := (htook₁.append htook₂).gains h
    rw [hempty] at hg
    exact hg

/-- Spawning a unit that is found, with nothing loaded on first use, leaves the
cache. -/
theorem cache_spawn (hc : s.cache.Calm) (world : WorldId) (unit : NameId) :
    (play (spawn world unit) s).2.cache = s.cache := by
  have hunit := hc.snd_run_getUnit (Unit.handle unit)
  rw [spawn, play_orStop, play_doing]
  cases ((Cache.getUnit (Unit.handle unit)).run s.cache).1 with
  | error f => exact hunit
  | ok d => exact hunit

theorem cache_findUnit (hc : s.cache.Calm) (hlazy : s.cache.autoload = false)
    (unit : NameId) : (play (findUnit unit) s).2.cache = s.cache := by
  rw [findUnit, play_doing]
  exact hc.snd_run_getOrLoad hlazy (Unit.handle unit)

theorem cache_spawnUnit (hc : s.cache.Calm) (hlazy : s.cache.autoload = false)
    (name : String) (world : WorldId) :
    (play (spawnUnit name world) s).2.cache = s.cache := by
  have hfound := cache_findUnit hc hlazy (Id.ofName name)
  rw [spawnUnit, play_orStop, play_explaining]
  split
  · rw [play_explaining, cache_spawn (hfound ▸ hc), hfound]
  · exact hfound

theorem cache_bootUnit (hc : s.cache.Calm) (hlazy : s.cache.autoload = false)
    (config : Config) : (play (bootUnit config) s).2.cache = s.cache := by
  unfold bootUnit
  split
  · rfl
  · rename_i name _
    rw [play_orStop]
    split <;> exact cache_spawnUnit hc hlazy name ⟨0⟩

/-- What the other services do, with nothing loaded on first use, keeps the
cache stocked. -/
theorem stocked_serve {name : String} {service : Service}
    (hmay : MayCall name service) (hload : name ≠ "package.load")
    (hunload : name ≠ "package.unload") (hlazy : s.cache.autoload = false)
    (hs : s.cache.Stocked p man) :
    (play (serve service) s).2.cache.Stocked p man := by
  cases service with
  | reloadAll =>
    rw [serve, play_doing]
    exact hs.reloadAll
  | stats =>
    rw [serve, play_doing]
    dsimp only
    rw [snd_run_stats]
    exact hs
  | loadPackage q => exact absurd hmay hload
  | isPackageLoaded q =>
    rw [serve, play_doing]
    dsimp only
    rw [hs.calm.snd_run_isLoaded]
    exact hs
  | unloadPackage q => exact absurd hmay hunload
  | spawnUnit unit world =>
    have hfound := cache_findUnit hs.calm hlazy (Id.ofName unit)
    rw [serve, play_orStop]
    cases (play (findUnit (Id.ofName unit)) s).1 with
    | error f =>
      dsimp only
      rw [hfound]
      exact hs
    | ok r =>
      dsimp only
      rw [cache_spawn (hfound ▸ hs.calm), hfound]
      exact hs

/-! ### Between boot and shutdown -/

/-- A booted host, whose cache holds the boot package and loads nothing on first
use. -/
structure Booted (config : Config) (man : Manifest) (s : Scene) : Prop where
  configured : s.host.config = config
  agrees : Agrees s
  lazy : s.cache.autoload = false
  stocked : s.cache.Stocked (Id.ofName config.bootPackage) man

/-- The words ask for no package to be loaded or unloaded, and assign another
variable than the one that asks for loading on first use, if any. -/
structure Sparing (ws : List String) : Prop where
  load : ws.head? ≠ some "package.load"
  unload : ws.head? ≠ some "package.unload"
  autoload : ¬ Assigns ws "resource.autoload"

instance (ws : List String) : Decidable (Sparing ws) :=
  decidable_of_iff
    (ws.head? ≠ some "package.load" ∧ ws.head? ≠ some "package.unload" ∧
      ¬ Assigns ws "resource.autoload")
    ⟨fun h => ⟨h.1, h.2.1, h.2.2⟩, fun h => ⟨h.load, h.unload, h.autoload⟩⟩

theorem Booted.exec (hs : Booted config man s) {line : String}
    (hline : Sparing (asked line)) :
    Booted config man (play (exec line) s).2 := by
  have hagrees := hs.agrees.exec line
  obtain ⟨result, k', s', hplay, ⟨hconfig, hlazy, hstocked⟩, -, hchanged⟩ :=
    exists_play_exec hs.agrees.commands line
      (I := fun s' => s'.host.config = config ∧ s'.cache.autoload = false ∧
        s'.cache.Stocked (Id.ofName config.bootPackage) man)
      (fun name args hasked service hmay s' ⟨hconfig, hlazy, hstocked⟩ =>
        have hsteady := serve_steady service s'
        ⟨hsteady.config.trans hconfig, hsteady.settings.autoload.trans hlazy,
          stocked_serve hmay (fun h => hline.load (by rw [hasked, h]; rfl))
            (fun h => hline.unload (by rw [hasked, h]; rfl)) hlazy hstocked⟩)
      ⟨hs.configured, hs.lazy, hs.stocked⟩
  rw [hplay] at hagrees ⊢
  refine ⟨?_, hagrees, ?_, ?_⟩
  · cases result <;> exact hconfig
  · -- The line did not assign the variable, and the cache follows the variable.
    obtain ⟨v, hv, hfollows⟩ := hs.agrees.autoload
    obtain ⟨v', hv', hfollows'⟩ := hagrees.autoload
    have hsame := hchanged.others _ hline.autoload
    rw [console_afterLine] at hv'
    rw [← getCvar, ← getCvar, hv, hv'] at hsame
    rw [hfollows', Option.some.inj hsame, ← hfollows]
    exact hs.lazy
  · cases result with
    | error f => exact hstocked
    | ok out => exact hstocked.withAutoload _

theorem Booted.playAll (hs : Booted config man s) {lines : List String}
    (hlines : ∀ line ∈ lines, Sparing (asked line)) :
    Booted config man (playAll (lines.map .exec) s) := by
  induction lines generalizing s with
  | nil => exact hs
  | cons line lines ih =>
    have hnext : Booted config man (Act.play (.exec line) s) :=
      hs.exec (hlines line List.mem_cons_self)
    rw [List.map_cons, playAll_cons]
    exact ih hnext fun line' h => hlines line' (List.mem_cons_of_mem _ h)

theorem calm_newCache (config : Config) (source : Source) :
    (newCache config source).Calm := by
  refine ⟨fun s hs => ?_, fun h e hl => ?_⟩
  · cases hs
  · cases hl

/-- A boot that succeeds fills the cache with the boot package. -/
theorem booted_of_boot {root : Option EntityId}
    (hlazy : config.autoload = false)
    (hplay : play boot (newScene config source) = (.ok root, s)) :
    ∃ man, Booted config man s := by
  have hsame := boot_steady (newScene config source)
  rw [hplay] at hsame
  rw [boot, play_bind, play_modify, play_bind, play_get] at hplay
  obtain ⟨⟨⟩, s₁, hpackage, hrest⟩ := play_orStop_eq_ok hplay
  obtain ⟨root', s₂, hunit, hrunning⟩ := play_orStop_eq_ok hrest
  obtain ⟨man, hstocked⟩ :=
    stocked_of_bootPackage (fun _ => rfl) (calm_newCache config source)
      rfl hpackage
  have hlazy₁ : s₁.cache.autoload = false := by
    have hsettings := (bootPackage_steady config
      ⟨{ Host.new config with phase := .booting },
        newCache config source⟩).settings
    have hs₁ := congrArg Prod.snd hpackage
    exact (hs₁ ▸ hsettings.autoload).trans hlazy
  have hcache : s.cache = s₁.cache := by
    calc s.cache = s₂.cache := congrArg (fun r => r.2.cache) hrunning.symm
      _ = (play (bootUnit config) s₁).2.cache :=
        congrArg (fun r => r.2.cache) hunit.symm
      _ = s₁.cache := cache_bootUnit hstocked.calm hlazy₁ config
  refine ⟨man, hsame.config, (agrees_newScene config source).of_same hsame, ?_,
    ?_⟩
  · exact hsame.settings.autoload.trans hlazy
  · rw [hcache]
    exact hstocked

/-! ### Shutdown -/

/-- A shutdown takes away what the boot brought. -/
theorem Booted.shutdown (hs : Booted config man s) :
    ∃ s', play Host.shutdown s = (.ok (), s') ∧ s'.cache.handles = [] ∧
      s'.host.phase = .idle := by
  obtain ⟨c', hunload, hc', hself, hothers⟩ :=
    exists_of_unloadPackage hs.stocked.calm
      hs.stocked.manifest
  have hgone : ∀ h, c'.lookup? h = none := by
    intro h
    by_cases hh : h = handle (Id.ofName config.bootPackage)
    · rw [hh, hself]
    · rw [hothers h hh]
      have hgains := hs.stocked.counts h
      rw [List.count_cons_of_ne (Ne.symm hh)] at hgains
      by_cases hzero : man.handles.count h = 0
      · rw [hzero] at hgains ⊢
        exact hgains.dropping_of_zero
      · exact hgains.dropping_of_idle hzero nofun
  have hempty : c'.handles = [] := by
    refine List.eq_nil_iff_forall_not_mem.2 fun h hh => ?_
    rw [mem_handles_iff, isListed_eq_isSome, hc'.find?_eq_none (hgone h)] at hh
    cases hh
  have honline : (canGet (handle (Id.ofName s.host.config.bootPackage))).run
        s.cache =
      (true, s.cache) := by
    obtain ⟨e, r, hl, hon, -, -⟩ :=
      held_of_run_manifest hs.stocked.calm hs.stocked.manifest
    rw [hs.configured, canGet, Program.run_bind, hs.stocked.calm.run_state, hl]
    simp [hon]
  refine ⟨⟨{ s.host with phase := .idle }, c'⟩, ?_, hempty, rfl⟩
  have hrun : play (doing (unloadPackage (Id.ofName s.host.config.bootPackage)))
        s =
      (.ok (), ⟨s.host, c'⟩) := by
    rw [play_doing, hs.configured, hunload]
  rw [Host.shutdown, play_bind, play_get, play_bind, play_doing, honline]
  exact play_orStop_of_ok hrun

/-- A host whose cache loads nothing on first use boots, executes lines that
spare the packages and the variable, failing or not, and shuts down: the
shutdown succeeds, and nothing is left in the table. -/
theorem shutdown_leaves_nothing (config : Config) (source : Source)
    (hlazy : config.autoload = false) {root : Option EntityId} {s : Scene}
    (hboot : play boot (newScene config source) = (.ok root, s))
    {lines : List String} (hlines : ∀ line ∈ lines, Sparing (asked line)) :
    ∃ s', play shutdown (Host.playAll (lines.map .exec) s) = (.ok (), s') ∧
      s'.cache.handles = [] ∧ s'.host.phase = .idle := by
  obtain ⟨man, hbooted⟩ := booted_of_boot hlazy hboot
  exact (hbooted.playAll hlines).shutdown

/-! ### A package and a unit that are booted -/

/-- The settings of a host that boots the package `level` and spawns the unit
`actor`. -/
def bootSettings : Config :=
  { bootPackage := "level", bootUnit := some "actor" }

/-- A package that lists itself, a unit, and a script twice. -/
def bootSource : Source :=
  .memory (((Table.empty.put (handle (Id.ofName "level")) (Text.toBytes
    "\x7b\"unit\":[\"actor\"],\"script\":[\"intro\",\"intro\"],\"package\":[\"level\"]\x7d")).put
    (Unit.handle (Id.ofName "actor"))
      (Text.toBytes "\x7b\"entity_count\":2\x7d")).put
    ⟨Id.ofName "script", Id.ofName "intro"⟩ [1, 2, 3])

/-- Lines that reload, spawn, look, assign and fail. -/
def mixedLines : List String :=
  ["resource.reload_all", "unit.spawn actor 3", "unit.spawn missing",
    "package.status level", "set resource.autoload", "boot.pkg other",
    "// intro", "resource.stats"]

/-- Whether a boot succeeds. -/
def boots (s : Scene) : Bool := (play boot s).1 matches .ok _

theorem exists_of_boots {s : Scene} (h : boots s = true) :
    ∃ root, play boot s = (.ok root, (play boot s).2) := by
  unfold boots at h
  split at h
  · rename_i root hroot
    exact ⟨root, Prod.ext hroot rfl⟩
  · cases h

/-- The actor is spawned, the level is reloaded, and nothing is left behind. -/
theorem shutdown_leaves_nothing_of_bootSettings :
    bootSettings.autoload = false ∧
      (∀ line ∈ mixedLines, Sparing (asked line)) ∧
      ∃ root s s',
        play boot (newScene bootSettings bootSource) = (.ok root, s) ∧
        play shutdown (Host.playAll (mixedLines.map .exec) s) = (.ok (), s') ∧
        s'.cache.handles = [] ∧ s'.host.phase = .idle := by
  have hlines : ∀ line ∈ mixedLines, Sparing (asked line) := by decide +kernel
  obtain ⟨root, hboot⟩ :=
    exists_of_boots (s := newScene bootSettings bootSource) (by decide +kernel)
  obtain ⟨s', hend⟩ :=
    shutdown_leaves_nothing bootSettings bootSource rfl hboot hlines
  exact ⟨rfl, hlines, root, _, s', hboot, hend⟩

end Host

end ResourceHost
