import ResourceHost.Proofs.Host.Scenes

/-!
# The variable that asks for loading on first use

The cache is told what the variable says only behind lines that succeed.  That
is often enough: a line that fails has changed no variable, and nothing but a
line changes one.  So cache and variable agree whatever a host does.
-/

namespace ResourceHost

namespace Host

open Console

/-- What can happen to a host, and to the bytes that its cache reads. -/
inductive Act where
  | exec (line : String)
  | boot
  | shutdown
  | spawnUnit (name : String) (world : WorldId)
  | flush (p : NameId)
  /-- The source has other bytes from now on. -/
  | supply (source : Source)

/-- The scene after an act. -/
def Act.play : Act → Scene → Scene
  | .exec line, s => (Host.play (Host.exec line) s).2
  | .boot, s => (Host.play Host.boot s).2
  | .shutdown, s => (Host.play Host.shutdown s).2
  | .spawnUnit name world, s => (Host.play (Host.spawnUnit name world) s).2
  | .flush p, s => (Host.play (Host.flush p) s).2
  | .supply source, s => ⟨s.host, { s.cache with source := source }⟩

/-- The scene after acts, one after another. -/
def playAll (acts : List Act) (s : Scene) : Scene :=
  acts.foldl (fun s a => a.play s) s

theorem playAll_cons (act : Act) (acts : List Act) (s : Scene) :
    playAll (act :: acts) s = playAll acts (act.play s) := rfl

/-- A new host and its cache. -/
def newScene (config : Config) (source : Source) : Scene :=
  ⟨Host.new config, newCache config source⟩

/-- The cache loads on first use as the variable says, on a host with the
commands that it registers. -/
structure Agrees (s : Scene) : Prop where
  commands : s.host.console.commands = commandTable
  autoload : ∃ v, s.host.console.getCvar "resource.autoload" = some v ∧
    s.cache.autoload = v.asTruth

variable {s s' : Scene}

theorem Agrees.of_same (hs : Agrees s) (h : s.Same s') : Agrees s' := by
  obtain ⟨v, hv, hauto⟩ := hs.autoload
  refine ⟨h.console ▸ hs.commands, v, ?_, h.settings.autoload.trans hauto⟩
  rw [h.console]
  exact hv

theorem wantsAutoload_of_getCvar {k : Console Service Service.Reply} {v : Value}
    (h : k.getCvar "resource.autoload" = some v) :
    wantsAutoload k = v.asTruth := by
  rw [wantsAutoload, h]

theorem Agrees.exec (hs : Agrees s) (line : String) :
    Agrees (Host.play (Host.exec line) s).2 := by
  obtain ⟨v, hv, hfollows⟩ := hs.autoload
  -- The services leave the cache as willing to load as it was.
  obtain ⟨result, k', s', hplay, hauto, hcommands, hchanged⟩ :=
    exists_play_exec hs.commands line
      (I := fun s' => s'.cache.autoload = s.cache.autoload)
      (fun _ _ _ service _ s' hs' =>
        (serve_steady service s').settings.autoload.trans hs') rfl
  rw [hplay]
  cases result with
  | error f =>
    refine ⟨hcommands, v, ?_, hauto.trans hfollows⟩
    rw [console_afterLine, getCvar, hchanged.failed f rfl]
    exact hv
  | ok out =>
    have hknown := hchanged.known "resource.autoload"
    rw [← getCvar, ← getCvar, hv] at hknown
    obtain ⟨v', hv'⟩ := Option.isSome_iff_exists.1 hknown
    exact ⟨hcommands, v', hv', wantsAutoload_of_getCvar hv'⟩

theorem Agrees.act (hs : Agrees s) (act : Act) : Agrees (act.play s) := by
  cases act with
  | exec line => exact hs.exec line
  | boot => exact hs.of_same (boot_steady s)
  | shutdown => exact hs.of_same (shutdown_steady s)
  | spawnUnit name world => exact hs.of_same (spawnUnit_steady name world s)
  | flush p => exact hs.of_same (flush_steady p s)
  | supply source => exact ⟨hs.commands, hs.autoload⟩

theorem agrees_newScene (config : Config) (source : Source) :
    Agrees (newScene config source) :=
  ⟨commands_newConsole config, .truth config.autoload, rfl, rfl⟩

theorem Agrees.playAll (hs : Agrees s) (acts : List Act) :
    Agrees (playAll acts s) := by
  induction acts generalizing s with
  | nil => exact hs
  | cons act acts ih =>
    rw [playAll_cons]
    exact ih (hs.act act)

/-- Whatever lines a new host executes, failing or not, and whatever it does
before and between: its cache loads what is missing on first use exactly if the
value of the variable counts as true. -/
theorem autoload_follows_variable (config : Config) (source : Source)
    (acts : List Act) :
    ∃ v, (Host.playAll acts (newScene config source)).host.console.getCvar
          "resource.autoload" =
        some v ∧
      (Host.playAll acts (newScene config source)).cache.autoload = v.asTruth :=
  ((agrees_newScene config source).playAll acts).autoload

end Host

end ResourceHost
