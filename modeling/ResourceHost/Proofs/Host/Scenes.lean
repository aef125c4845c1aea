import ResourceHost.Host.Commands
import ResourceHost.Proofs.Cache.Settings
import ResourceHost.Proofs.Console.Lines

/-!
# A host and its cache

A scene is a host with the cache that it works on.  What a host does to a scene
is told piece by piece, as its programs are composed.  Services leave the
console alone, and scripts reach the scene only through services; so a line
changes the cache as the services of its command do, and the console as its
words do.
-/

namespace ResourceHost

/-- A host and the cache that it works on. -/
structure Scene where
  host : Host
  cache : Cache

namespace Scene

/-- The console, the configuration and the settings of the cache are the
same. -/
structure Same (s s' : Scene) : Prop where
  console : s'.host.console = s.host.console
  config : s'.host.config = s.host.config
  settings : s.cache.SameSettings s'.cache

variable {s s' s'' : Scene}

theorem Same.refl (s : Scene) : Same s s := ⟨rfl, rfl, .refl _⟩

theorem Same.trans (h : Same s s') (h' : Same s' s'') : Same s s'' :=
  ⟨h'.console.trans h.console, h'.config.trans h.config,
    h.settings.trans h'.settings⟩

end Scene

namespace Host

variable {α β : Type}

/-! ### Playing programs -/

/-- Runs a program of a host alone. -/
def play (p : HostProgram α) (s : Scene) : α × Scene :=
  (((p s.host).run s.cache).1.1,
    ⟨((p s.host).run s.cache).1.2, ((p s.host).run s.cache).2⟩)

variable (s : Scene)

@[simp] theorem play_pure (a : α) : play (pure a) s = (a, s) := rfl

@[simp] theorem play_bind (p : HostProgram α) (f : α → HostProgram β) :
    play (p >>= f) s = play (f (play p s).1) (play p s).2 := by
  have hrun : (p >>= f) s.host =
      (p s.host >>= fun x => f x.1 x.2 : Program (β × Host)) := rfl
  simp only [play, hrun, Program.run_bind]

@[simp] theorem play_get : play get s = (s.host, s) := rfl

@[simp] theorem play_modify (f : Host → Host) :
    play (modify f) s = ((), ⟨f s.host, s.cache⟩) := rfl

@[simp] theorem play_doing (p : Program α) :
    play (doing p) s = ((p.run s.cache).1, ⟨s.host, (p.run s.cache).2⟩) := by
  have hrun : doing p s.host =
      (p >>= fun a => pure (a, s.host) : Program (α × Host)) := rfl
  simp only [play, hrun, Program.run_bind, Program.run_pure]

@[simp] theorem play_explaining (what : Activity)
    (p : HostProgram (Except Failure α)) :
    play (explaining what p) s = (what.explain (play p s).1, (play p s).2) := by
  simp [explaining]

theorem play_orStop (p : HostProgram (Except Failure α))
    (f : α → HostProgram (Except Failure β)) :
    play (orStop p f) s =
      match (play p s).1 with
      | .ok a => play (f a) (play p s).2
      | .error e => (.error e, (play p s).2) := by
  rw [orStop, play_bind]
  cases (play p s).1 <;> rfl

variable {s}

theorem play_orStop_of_ok {p : HostProgram (Except Failure α)}
    {f : α → HostProgram (Except Failure β)} {a : α} {s' : Scene}
    (h : play p s = (.ok a, s')) : play (orStop p f) s = play (f a) s' := by
  rw [play_orStop, h]

theorem play_doing_eq {p : Program α} {a : α} {s' : Scene}
    (h : play (doing p) s = (a, s')) :
    p.run s.cache = (a, s'.cache) ∧ s'.host = s.host := by
  rw [play_doing] at h
  cases h
  exact ⟨rfl, rfl⟩

theorem play_explaining_eq_ok {what : Activity}
    {p : HostProgram (Except Failure α)} {a : α} {s' : Scene}
    (h : play (explaining what p) s = (.ok a, s')) :
    play p s = (.ok a, s') := by
  rw [play_explaining] at h
  cases hp : play p s with
  | mk o s₁ =>
    rw [hp] at h
    cases o with
    | error f => cases h
    | ok a' => exact h

/-- What does not stop at a failure has got past it. -/
theorem play_orStop_eq_ok {p : HostProgram (Except Failure α)}
    {f : α → HostProgram (Except Failure β)} {b : β} {s' : Scene}
    (h : play (orStop p f) s = (.ok b, s')) :
    ∃ a s₁, play p s = (.ok a, s₁) ∧ play (f a) s₁ = (.ok b, s') := by
  rw [play_orStop] at h
  cases hp : play p s with
  | mk o s₁ =>
    rw [hp] at h
    cases o with
    | error e => cases h
    | ok a => exact ⟨a, s₁, rfl, h⟩

/-! ### What stays as it is -/

/-- Leaves the console, the configuration and the settings of the cache
alone. -/
def Steady (p : HostProgram α) : Prop := ∀ s : Scene, s.Same (play p s).2

theorem steady_pure (a : α) : Steady (pure a) := fun s => .refl s

theorem Steady.bind {p : HostProgram α} {f : α → HostProgram β} (hp : Steady p)
    (hf : ∀ a, Steady (f a)) : Steady (p >>= f) := by
  intro s
  rw [play_bind]
  exact (hp s).trans (hf _ _)

theorem Steady.orStop {p : HostProgram (Except Failure α)}
    {f : α → HostProgram (Except Failure β)} (hp : Steady p)
    (hf : ∀ a, Steady (f a)) : Steady (orStop p f) := by
  refine hp.bind fun o => ?_
  cases o with
  | ok a => exact hf a
  | error f => exact steady_pure _

theorem Steady.explaining {p : HostProgram (Except Failure α)} (hp : Steady p)
    (what : Activity) : Steady (explaining what p) :=
  hp.bind fun _ => steady_pure _

theorem steady_doing {p : Program α} (hp : p.Modest) : Steady (doing p) := by
  intro s
  rw [play_doing]
  exact ⟨rfl, rfl, hp.sameSettings s.cache⟩

theorem steady_get : Steady get := fun s => .refl s

theorem steady_modify {f : Host → Host}
    (hconsole : ∀ h, (f h).console = h.console)
    (hconfig : ∀ h, (f h).config = h.config) : Steady (modify f) :=
  fun s => ⟨hconsole s.host, hconfig s.host, .refl _⟩

/-! ### Services -/

theorem schedule_steady (p : NameId) : Steady (schedule p) :=
  (steady_doing (Package.schedule_modest p)).orStop fun _ =>
    Steady.bind (steady_modify (fun _ => rfl) fun _ => rfl)
      fun _ => steady_pure _

theorem flush_steady (p : NameId) : Steady (flush p) :=
  fun _ => ⟨rfl, rfl, .refl _⟩

theorem unloadPackage_steady (p : NameId) : Steady (doing (unloadPackage p)) :=
  steady_doing ((Package.unload_modest p).orStop fun _ =>
    Cache.visit_modest (Package.handle p) .unload)

theorem spawn_steady (world : WorldId) (unit : NameId) :
    Steady (spawn world unit) :=
  (steady_doing (Cache.getUnit_modest _)).orStop fun _ _ => ⟨rfl, rfl, .refl _⟩

theorem findUnit_steady (unit : NameId) : Steady (findUnit unit) :=
  steady_doing (Cache.getOrLoad_modest _)

theorem spawnUnit_steady (name : String) (world : WorldId) :
    Steady (spawnUnit name world) :=
  ((findUnit_steady _).explaining _).orStop fun _ =>
    (spawn_steady _ _).explaining _

theorem serve_steady (service : Service) : Steady (serve service) := by
  cases service with
  | reloadAll => exact steady_doing Cache.reloadAll_modest
  | stats => exact steady_doing Cache.stats_modest
  | loadPackage name =>
    exact (steady_doing (Cache.load_modest _ _)).orStop
      fun _ => schedule_steady _
  | isPackageLoaded name => exact steady_doing (Package.isLoaded_modest _)
  | unloadPackage name => exact unloadPackage_steady _
  | spawnUnit name world =>
    exact (findUnit_steady _).orStop fun _ => spawn_steady _ _

/-! ### Booting and shutting down -/

theorem bootPackage_steady (config : Config) : Steady (bootPackage config) :=
  ((steady_doing (Cache.load_modest _ _)).explaining _).orStop fun _ =>
    (schedule_steady _).orStop fun _ => flush_steady _

theorem bootUnit_steady (config : Config) : Steady (bootUnit config) := by
  unfold bootUnit
  split
  · exact steady_pure _
  · exact (spawnUnit_steady _ _).orStop fun _ => steady_pure _

theorem boot_steady : Steady boot := by
  refine Steady.bind (steady_modify (fun _ => rfl) fun _ => rfl) fun _ =>
    steady_get.bind fun h => ?_
  refine (bootPackage_steady _).orStop fun _ =>
    (bootUnit_steady _).orStop fun _ => ?_
  exact Steady.bind (steady_modify (fun _ => rfl) fun _ => rfl)
    fun _ => steady_pure _

theorem shutdown_steady : Steady shutdown := by
  refine steady_get.bind fun h => (steady_doing (Cache.canGet_modest _)).bind
    fun booted => ?_
  refine Steady.orStop ?_ fun _ =>
    Steady.bind (steady_modify (fun _ => rfl) fun _ => rfl)
      fun _ => steady_pure _
  split
  · exact unloadPackage_steady _
  · exact steady_pure _

/-! ### Scripts -/

open Console

/-- What a script ensures whatever the services answer, it comes to. -/
theorem ensures_play {script : Script Service Service.Reply}
    {Q : Except Failure Unit → Cvars → Prop} {vs : Cvars}
    (h : script.Ensures Q vs) (out : List String) (s : Scene) :
    Q (play (script.run serve vs out) s).1.1
      (play (script.run serve vs out) s).1.2.1 := by
  induction script generalizing vs out s with
  | stop result => exact h
  | print line next ih => exact ih h _ s
  | get name next ih => exact ih _ h out s
  | list next ih => exact ih _ h out s
  | set name value next ih => exact ih _ h out s
  | call service next ih =>
    rw [Script.run, play_bind]
    exact ih _ (h _) out _

/-- A silent script keeps what its services keep. -/
theorem silent_play {I : Scene → Prop} {C : Service → Prop}
    {script : Script Service Service.Reply} (h : script.Silent C)
    (hserve : ∀ service, C service → ∀ s, I s → I (play (serve service) s).2)
    (vs : Cvars) (out : List String) {s : Scene} (hs : I s) :
    I (play (script.run serve vs out) s).2 := by
  induction script generalizing vs out s with
  | stop result => exact hs
  | print line next ih => exact ih h vs _ hs
  | get name next ih => exact ih _ (h _) vs out hs
  | list next ih => exact ih _ (h _) vs out hs
  | set name value next ih => exact h.elim
  | call service next ih =>
    rw [Script.run, play_bind]
    exact ih _ (h.2 _) vs out (hserve service h.1 s hs)

/-- The command that sets variables calls no services. -/
theorem setCommand_play (args : List String) (vs : Cvars) (out : List String)
    (s : Scene) : (play ((setCommand args).run serve vs out) s).2 = s := by
  match args with
  | [] => rfl
  | [_] => rfl
  | name :: word :: rest =>
    simp only [setCommand, Script.run]
    cases (Cvars.assign vs name (Value.parse (unwords (word :: rest)))).1 <;>
      rfl

/-! ### The commands of a host -/

/-- Packages are loaded and unloaded by no other commands than those that say
so. -/
def MayCall (name : String) : Service → Prop
  | .loadPackage _ => name = "package.load"
  | .unloadPackage _ => name = "package.unload"
  | _ => True

/-- The commands that a host registers, besides those that every console has. -/
def commandTable : Table String Command := (newConsole {}).commands

theorem commands_newConsole (config : Config) :
    (newConsole config).commands = commandTable := rfl

/-- A command that takes a name is silent if it is for every name. -/
theorem onName_silent {C : Service → Prop} {usage : String}
    {command : String → List String → Script Service Service.Reply}
    (h : ∀ name rest, (command name rest).Silent C) (args : List String) :
    (onName usage command args).Silent C := by
  cases args with
  | nil => exact trivial
  | cons name rest => exact h name rest

theorem commands_silent {name : String} {command : Command}
    (h : (name, command) ∈ commands) (args : List String) :
    (command args).Silent (MayCall name) := by
  simp only [commands, List.mem_cons, Prod.mk.injEq, List.not_mem_nil,
    or_false] at h
  obtain ⟨rfl, rfl⟩ | ⟨rfl, rfl⟩ | ⟨rfl, rfl⟩ | ⟨rfl, rfl⟩ | ⟨rfl, rfl⟩ |
    ⟨rfl, rfl⟩ := h
  · exact ⟨trivial, fun report => Script.Silent.printAll
      (show (Script.print _ .finish : Script Service Service.Reply).Silent _
        from trivial) _⟩
  · exact ⟨trivial, fun stats => trivial⟩
  · refine onName_silent (fun name _ => ?_) args
    exact ⟨rfl, fun result => Script.Silent.orFail fun _ => trivial⟩
  · refine onName_silent (fun name _ => ?_) args
    exact ⟨trivial, fun loaded => trivial⟩
  · refine onName_silent (fun name _ => ?_) args
    exact ⟨rfl, fun result => Script.Silent.orFail fun _ => trivial⟩
  · refine onName_silent (fun name rest => Script.Silent.orFail fun world => ?_)
      args
    exact ⟨trivial, fun result => Script.Silent.orFail fun root => trivial⟩

/-- Of the commands of a host only `set` sets variables. -/
theorem tame_of_commands {k : Console Service Service.Reply}
    (hk : k.commands = commandTable) : k.Tame MayCall := by
  intro name command hc
  rw [hk] at hc
  have hmem := Table.mem_pairs_of_get? hc
  have hpairs : commandTable.pairs =
      [("echo", echo), ("cvarlist", cvarlist),
        ("set", setCommand)] ++ commands := rfl
  rw [hpairs, List.mem_append] at hmem
  rcases hmem with hbuiltin | hown
  · simp only [List.mem_cons, Prod.mk.injEq, List.not_mem_nil,
      or_false] at hbuiltin
    obtain ⟨rfl, rfl⟩ | ⟨rfl, rfl⟩ | ⟨rfl, rfl⟩ := hbuiltin
    · exact .inl fun args => echo_silent _ args
    · exact .inl fun args => cvarlist_silent _ args
    · exact .inr ⟨rfl, rfl⟩
  · exact .inl (commands_silent hown)

/-! ### Lines -/

variable {I : Scene → Prop} {C : String → Service → Prop}
  {k : Console Service Service.Reply}

/-- A console executes words: the scene changes as the services of the command
do, and the console as the words do. -/
theorem play_execWords (hk : k.Tame C) {ws : List String}
    (hserve : ∀ name args, ws = name :: args → ∀ service, C name service →
      ∀ s, I s → I (play (serve service) s).2)
    {s : Scene} (hs : I s) :
    ∃ result k' s', play (k.execWords serve ws) s = ((result, k'), s') ∧ I s' ∧
      k'.commands = k.commands ∧ Changed ws k.cvars result k'.cvars := by
  cases ws with
  | nil => exact ⟨_, k, s, rfl, hs, rfl, .refl _ _ _⟩
  | cons name args =>
    rw [execWords]
    split
    · exact ⟨_, k, s, rfl, hs, rfl, .refl _ _ _⟩
    · cases hc : k.commands.get? name with
      | none =>
        exact ⟨_, _, s, rfl, hs, commands_execCvar k name args,
          execCvar_changed k name args⟩
      | some command =>
        have hchanged := ensures_play (hk.ensures hc args) [] s
        dsimp only
        rw [play_bind]
        refine ⟨_, _, _, rfl, ?_, rfl, ?_⟩
        · rcases hk name command hc with hsilent | ⟨rfl, rfl⟩
          · exact silent_play (hsilent args) (hserve name args rfl) _ _ hs
          · rw [setCommand_play]
            exact hs
        · refine hchanged.of_failed fun f hf => ?_
          cases hresult :
              (play ((command args).run serve k.cvars []) s).1.1 with
          | ok u =>
            rw [hresult] at hf
            cases hf
          | error f' => exact ⟨f', rfl⟩

/-- The scene behind a line: the console is the one that the line left, and the
cache is told what the variables say if the line succeeded. -/
def afterLine (result : Except Failure (List String))
    (k : Console Service Service.Reply) (s : Scene) : Scene :=
  match result with
  | .ok _ =>
    ⟨{ s.host with console := k }, { s.cache with autoload := wantsAutoload k }⟩
  | .error _ => ⟨{ s.host with console := k }, s.cache⟩

theorem console_afterLine (result : Except Failure (List String))
    (k : Console Service Service.Reply) (s : Scene) :
    (afterLine result k s).host.console = k := by
  cases result <;> rfl

/-- Behind a line the cache is as the line left it, up to what it loads on first
use. -/
theorem exists_cache_afterLine (result : Except Failure (List String))
    (k : Console Service Service.Reply) (s : Scene) :
    ∃ on, (afterLine result k s).cache = { s.cache with autoload := on } := by
  cases result with
  | ok out => exact ⟨wantsAutoload k, rfl⟩
  | error f => exact ⟨s.cache.autoload, rfl⟩

theorem pending_afterLine (result : Except Failure (List String))
    (k : Console Service Service.Reply) (s : Scene) :
    (afterLine result k s).host.pending = s.host.pending := by
  cases result <;> rfl

/-- What the host does behind a line, once the console has executed it. -/
theorem play_exec_of_console {line : String} {s s' : Scene}
    {result : Except Failure (List String)} {k : Console Service Service.Reply}
    (h : play (s.host.console.exec serve line) s = ((result, k), s')) :
    play (exec line) s = (result, afterLine result k s') := by
  rw [exec, play_bind, play_get, play_bind, h]
  cases result with
  | error f => rfl
  | ok out =>
    rw [play_bind, play_modify, play_orStop, play_pure]
    show play (if wantsAutoload k ≠ s'.cache.autoload then _ else _) _ = _
    by_cases hsame : wantsAutoload k = s'.cache.autoload
    · rw [if_neg (not_not_intro hsame), afterLine, hsame]
      rfl
    · rw [if_pos hsame]
      rfl

/-- A host executes a line: up to what is told to the cache behind it, the scene
changes as the services of its command do, and the console as its words do. -/
theorem exists_play_exec {s : Scene}
    (hcommands : s.host.console.commands = commandTable) (line : String)
    (hserve : ∀ name args, asked line = name :: args →
      ∀ service, MayCall name service →
      ∀ s, I s → I (play (serve service) s).2)
    (hs : I s) :
    ∃ result k' s',
      play (exec line) s = (result, afterLine result k' s') ∧ I s' ∧
      k'.commands = commandTable ∧
      Changed (asked line) s.host.console.cvars result k'.cvars := by
  obtain ⟨k, hcvars, hk, hexec⟩ := exists_exec_eq serve s.host.console line
  obtain ⟨result, k', s', hplay, hI, hk', hchanged⟩ :=
    play_execWords (tame_of_commands (hk.trans hcommands)) hserve hs
  rw [hcvars] at hchanged
  rw [← hexec] at hplay
  exact ⟨result, k', s', play_exec_of_console hplay, hI,
    (hk'.trans hk).trans hcommands, hchanged⟩

/-- A line that names a command runs its script. -/
theorem exists_play_exec_command {s s' : Scene}
    (hcommands : s.host.console.commands = commandTable) {line name : String}
    {args : List String} (hasked : asked line = name :: args)
    (hhelp : name ≠ "help") {command : Command}
    (hget : commandTable.get? name = some command)
    {result : Except Failure Unit} {vs : Cvars} {out : List String}
    (hrun : play ((command args).run serve s.host.console.cvars []) s =
        ((result, vs, out), s')) :
    ∃ k', k'.commands = commandTable ∧
      play (exec line) s =
        (Activity.explain (.runCommand name) (result.map fun _ => out),
          afterLine (Activity.explain (.runCommand name)
            (result.map fun _ => out)) k' s') := by
  obtain ⟨k, hcvars, hk, hexec⟩ := exists_exec_eq serve s.host.console line
  refine ⟨{ k with cvars := vs }, hk.trans hcommands, play_exec_of_console ?_⟩
  have hfound : k.commands.get? name = some command := by
    rw [hk, hcommands]
    exact hget
  rw [hexec, hasked, execWords, if_neg hhelp, hfound]
  dsimp only
  rw [play_bind, hcvars, hrun]
  rfl

end Host

end ResourceHost
