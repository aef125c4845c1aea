import ResourceHost.Proofs.Host.Autoload
import ResourceHost.Proofs.Host.Packages
import ResourceHost.Proofs.Unit.Spawnable

/-!
# Package commands, repeated

To unload a package that was loaded once undoes the load.  A package that was
loaded several times is evicted by the first unload, whatever its references;
what it lists has lost one reference per listing by then, and keeps the
references of the other loads.  Nothing is found to be unloaded any more, so
every further unload fails.
-/

namespace ResourceHost

open Cache Package

/-! ### One entry, loaded several times -/

namespace Entry

variable {n k : Nat} {b : Option Entry} {e : Entry}

/-- Of the references that several loads took the drop of one load's leaves the
others. -/
theorem Gains.dropping_one_of_held (h : Gains ((k + 1) * n) (some e) b)
    (he : 1 ≤ e.refCount) :
    b.bind (dropping n) = some (e.counting (e.refCount + k * n)) := by
  have hsplit : (k + 1) * n = k * n + n := Nat.succ_mul k n
  rw [h.eq_joined, hsplit]
  by_cases hn : n = 0
  · subst hn
    rfl
  · have hlt : n < e.refCount + (k * n + n) := by omega
    have hleft : e.refCount + (k * n + n) - n = e.refCount + k * n := by omega
    simp [dropping, hn, hlt, lessening, hleft]

/-- What was absent is left with the references of the other loads, if there are
any. -/
theorem Gains.dropping_one_of_absent (h : Gains ((k + 1) * n) none b) :
    Gains (k * n) none (b.bind (dropping n)) := by
  have hsplit : (k + 1) * n = k * n + n := Nat.succ_mul k n
  rw [hsplit] at h
  generalize k * n = m at h
  generalize hsum : m + n = total at h
  cases h with
  | absent =>
    obtain rfl : m = 0 := by omega
    exact .absent
  | @loaded total e hd hs hr =>
    by_cases hn : n = 0
    · obtain rfl : m = total + 1 := by omega
      rw [hn]
      exact .loaded hd hs hr
    · cases m with
      | zero =>
        have hle : ¬ n < e.refCount := by omega
        rw [Option.bind_some, dropping, if_neg hn, if_neg hle]
        exact .absent
      | succ m =>
        have hlt : n < e.refCount := by omega
        rw [Option.bind_some, dropping, if_neg hn, if_pos hlt]
        exact .loaded (hd.counting _) hs
          (by rw [lessening, refCount_counting]; omega)

theorem Gains.eq_none (h : Gains 0 none b) : b = none := by
  cases h
  rfl

theorem Gains.exists_online (h : Gains n none b) (hn : n ≠ 0) :
    ∃ e, b = some e ∧ e.state = .online ∧ e.refCount = n := by
  cases h with
  | absent => exact absurd rfl hn
  | @loaded n e hd hs hr => exact ⟨e, rfl, hs, hr⟩

end Entry

namespace Host

open Console

variable {s s' s₁ : Scene} {name : String} {man : Manifest} {k : Nat}

/-! ### Lines that name a package -/

/-- The line is a command on a name, whatever words stand behind. -/
def Asks (command name line : String) : Prop :=
  ∃ rest, asked line = command :: name :: rest

/-- Lines that load a package are executed one after another.  Each succeeds,
and its load in the background is over, without a failure, before the next
line. -/
inductive Loads (name : String) : List String → Scene → Scene → Prop where
  | nil (s : Scene) : Loads name [] s s
  | cons {line : String} {lines : List String} {out : List String}
      {s s₁ s' : Scene} (hasks : Asks "package.load" name line)
      (hplay : play (exec line) s = (.ok out, s₁))
      (hover : s₁.host.pending.waiting (Id.ofName name) =
        s.host.pending.waiting (Id.ofName name) ++ [.ok ()])
      (hrest : Loads name lines s₁ s') : Loads name (line :: lines) s s'

/-- What is answered to a line that unloads a package which is not there. -/
def notThere (name : String) : Except Failure (List String) :=
  .error (.during (.runCommand "package.unload")
    (.notLoaded (handle (Id.ofName name))))

/-- Lines are executed one after another.  Each fails because the package is not
there, and leaves the whole cache as it is. -/
inductive Refused (name : String) : List String → Scene → Scene → Prop where
  | nil (s : Scene) : Refused name [] s s
  | cons {line : String} {lines : List String} {s s₁ s' : Scene}
      (hplay : play (exec line) s = (notThere name, s₁))
      (hsame : s₁.cache = s.cache) (hrest : Refused name lines s₁ s') :
      Refused name (line :: lines) s s'

theorem Refused.cache_eq {lines : List String} (h : Refused name lines s s') :
    s'.cache = s.cache := by
  induction h with
  | nil s => rfl
  | cons hplay hsame hrest ih => exact ih.trans hsame

/-- A command that calls a service and fails with it, or prints a text. -/
theorem exists_play_exec_service {s s₁ : Scene}
    (hcommands : s.host.console.commands = commandTable) {line command : String}
    {args : List String} (hasked : asked line = command :: args)
    (hhelp : command ≠ "help") {script : Command}
    (hget : commandTable.get? command = some script)
    (result : Except Failure Unit) (text : String)
    (hscript : ∀ vs, play ((script args).run serve vs []) s =
      play ((Script.orFail result fun _ => .print text .finish).run serve vs [])
        s₁) :
    ∃ k', k'.commands = commandTable ∧
      play (exec line) s =
        (Activity.explain (.runCommand command) (result.map fun _ => [text]),
          afterLine (Activity.explain (.runCommand command)
            (result.map fun _ => [text])) k' s₁) := by
  cases result with
  | ok u =>
    exact exists_play_exec_command hcommands hasked hhelp hget (hscript _)
  | error f =>
    have hrun : play ((script args).run serve s.host.console.cvars []) s =
        ((.error f, s.host.console.cvars, []), s₁) := hscript _
    -- Of what was printed nothing is left in the answer.
    have hexec := exists_play_exec_command hcommands hasked hhelp hget hrun
    exact hexec

theorem exists_play_load {s s₁ : Scene}
    (hcommands : s.host.console.commands = commandTable) {line : String}
    (hasks : Asks "package.load" name line) {result : Except Failure Unit}
    (hserve : play (serve (.loadPackage name)) s = (result, s₁)) :
    ∃ k' text, k'.commands = commandTable ∧
      play (exec line) s =
        (Activity.explain (.runCommand "package.load")
            (result.map fun _ => [text]),
          afterLine (Activity.explain (.runCommand "package.load")
              (result.map fun _ => [text]))
            k' s₁) := by
  obtain ⟨rest, hasked⟩ := hasks
  have hscript : ∀ vs,
      play ((loadPackageCommand (name :: rest)).run serve vs []) s =
        play ((Script.orFail result fun _ =>
          .print ("package " ++ name ++ " scheduled") .finish).run serve vs [])
          s₁ := by
    intro vs
    show play (Script.run serve (.call (.loadPackage name) _) vs []) s = _
    rw [Script.run, play_bind, hserve]
  obtain ⟨k', hk'⟩ :=
    exists_play_exec_service hcommands hasked (by decide) rfl _ _ hscript
  exact ⟨k', _, hk'⟩

theorem exists_play_unload {s s₁ : Scene}
    (hcommands : s.host.console.commands = commandTable) {line : String}
    (hasks : Asks "package.unload" name line) {result : Except Failure Unit}
    (hserve : play (serve (.unloadPackage name)) s = (result, s₁)) :
    ∃ k' text, k'.commands = commandTable ∧
      play (exec line) s =
        (Activity.explain (.runCommand "package.unload")
            (result.map fun _ => [text]),
          afterLine (Activity.explain (.runCommand "package.unload")
              (result.map fun _ => [text]))
            k' s₁) := by
  obtain ⟨rest, hasked⟩ := hasks
  have hscript : ∀ vs,
      play ((unloadPackageCommand (name :: rest)).run serve vs []) s =
        play ((Script.orFail result fun _ =>
          .print ("package " ++ name ++ " unloaded") .finish).run serve vs [])
          s₁ := by
    intro vs
    show play (Script.run serve (.call (.unloadPackage name) _) vs []) s = _
    rw [Script.run, play_bind, hserve]
  obtain ⟨k', hk'⟩ :=
    exists_play_exec_service hcommands hasked (by decide) rfl _ _ hscript
  exact ⟨k', _, hk'⟩

/-- A reference has been taken for the package and one for each of its
listings. -/
theorem took_of_line (hc : s.cache.Calm)
    (hcommands : s.host.console.commands = commandTable) {line : String}
    {out : List String} (hasks : Asks "package.load" name line)
    (hplay : play (exec line) s = (.ok out, s'))
    (hover : s'.host.pending.waiting (Id.ofName name) =
      s.host.pending.waiting (Id.ofName name) ++ [.ok ()]) :
    s'.host.console.commands = commandTable ∧
      ∃ man, (manifest (Id.ofName name)).run s'.cache = (.ok man, s'.cache) ∧
        Took (handle (Id.ofName name) :: man.handles) s.cache s'.cache := by
  cases hserve : play (serve (.loadPackage name)) s with
  | mk result s₁ =>
    obtain ⟨k', text, hk', hexec⟩ := exists_play_load hcommands hasks hserve
    rw [hexec] at hplay
    cases result with
    | error f => cases hplay
    | ok u =>
      obtain ⟨⟨⟩, s₂, hload, hschedule⟩ := play_orStop_eq_ok hserve
      obtain ⟨hload, hhost⟩ := play_doing_eq hload
      obtain ⟨o, hrun, hpending⟩ := play_schedule hschedule
      obtain rfl : afterLine (.ok [text]) k' s₁ = s' := congrArg Prod.snd hplay
      rw [pending_afterLine, hpending, ← hhost,
        Pending.waiting_add_self] at hover
      obtain rfl : o = .ok () :=
        (List.cons.inj (List.append_cancel_left hover)).1
      obtain ⟨man, hman, htook₁, htook₂⟩ := took_of_load hc hload hrun
      obtain ⟨on, hon⟩ := exists_cache_afterLine (.ok [text]) k' s₁
      rw [hon]
      exact ⟨hk', man, run_manifest_withAutoload htook₂.calm hman on,
        (htook₁.append htook₂).withAutoload on⟩

/-- The handles of which references are taken when a package is loaded some
times. -/
def takenBy (p : NameId) (man : Manifest) (times : Nat) : List Handle :=
  (List.replicate times (handle p :: man.handles)).flatten

theorem takenBy_succ (p : NameId) (man : Manifest) (times : Nat) :
    takenBy p man (times + 1) =
      (handle p :: man.handles) ++ takenBy p man times := by
  rw [takenBy, List.replicate_succ, List.flatten_cons]
  rfl

theorem count_takenBy {p : NameId} {h : Handle} (hne : h ≠ handle p)
    (man : Manifest) (times : Nat) :
    (takenBy p man times).count h = times * man.handles.count h := by
  induction times with
  | zero => simp [takenBy]
  | succ times ih =>
    rw [takenBy_succ, List.count_append, List.count_cons_of_ne (Ne.symm hne),
      ih, Nat.succ_mul, Nat.add_comm]

/-- Once the package is there, every further load takes the same references. -/
theorem Loads.took_again {lines : List String} (hl : Loads name lines s s')
    (hc : s.cache.Calm) (hcommands : s.host.console.commands = commandTable)
    (hman : (manifest (Id.ofName name)).run s.cache = (.ok man, s.cache)) :
    s'.host.console.commands = commandTable ∧
      (manifest (Id.ofName name)).run s'.cache = (.ok man, s'.cache) ∧
      Took (takenBy (Id.ofName name) man lines.length) s.cache s'.cache := by
  induction hl with
  | nil s => exact ⟨hcommands, hman, .nil hc⟩
  | cons hasks hplay hover hrest ih =>
    obtain ⟨hcommands₁, man₁, hman₁, htook⟩ :=
      took_of_line hc hcommands hasks hplay hover
    cases hman₁.symm.trans (htook.run_manifest hc hman)
    obtain ⟨hcommands', hman', htook'⟩ := ih htook.calm hcommands₁ hman₁
    exact ⟨hcommands', hman', htook.append htook'⟩

/-- What a package is loaded as it stays while it is loaded again. -/
theorem Loads.took {lines : List String} (hl : Loads name lines s s')
    (hne : lines ≠ []) (hc : s.cache.Calm)
    (hcommands : s.host.console.commands = commandTable) :
    s'.host.console.commands = commandTable ∧
      ∃ man, (manifest (Id.ofName name)).run s'.cache = (.ok man, s'.cache) ∧
        Took (takenBy (Id.ofName name) man lines.length) s.cache s'.cache := by
  cases hl with
  | nil => exact absurd rfl hne
  | cons hasks hplay hover hrest =>
    obtain ⟨hcommands₁, man, hman, htook⟩ :=
      took_of_line hc hcommands hasks hplay hover
    obtain ⟨hcommands', hman', htook'⟩ :=
      hrest.took_again htook.calm hcommands₁ hman
    exact ⟨hcommands', man, hman', htook.append htook'⟩

/-! ### Unloading -/

/-- To unload a package that is not there fails, however often it is tried. -/
theorem exists_refused {lines : List String}
    (hlines : ∀ line ∈ lines, Asks "package.unload" name line)
    (hc : s.cache.Calm) (hcommands : s.host.console.commands = commandTable)
    (habsent : s.cache.lookup? (handle (Id.ofName name)) = none) :
    ∃ s', Refused name lines s s' := by
  induction lines generalizing s with
  | nil => exact ⟨s, .nil s⟩
  | cons line lines ih =>
    have hserve : play (serve (.unloadPackage name)) s =
        (.error (.notLoaded (handle (Id.ofName name))), s) := by
      rw [serve, play_doing, unloadPackage_of_absent hc habsent]
    obtain ⟨k', text, hk', hexec⟩ :=
      exists_play_unload hcommands (hlines line List.mem_cons_self) hserve
    -- Behind a line that fails not even the autoload flag is set anew.
    have hexec : play (exec line) s =
      (notThere name, ⟨{ s.host with console := k' }, s.cache⟩) := hexec
    obtain ⟨s', hrest⟩ := ih (s := ⟨{ s.host with console := k' }, s.cache⟩)
      (fun line' h => hlines line' (List.mem_cons_of_mem _ h)) hc hk' habsent
    exact ⟨s', .cons hexec rfl hrest⟩

/-- To unload a package that is there evicts it, and each listing of another
resource drops one of its references. -/
theorem exists_of_unload {line : String}
    (hasks : Asks "package.unload" name line) (hc : s.cache.Calm)
    (hcommands : s.host.console.commands = commandTable)
    (hman : (manifest (Id.ofName name)).run s.cache = (.ok man, s.cache)) :
    ∃ out s', play (exec line) s = (.ok out, s') ∧ s'.cache.Calm ∧
      s'.host.console.commands = commandTable ∧
      s'.cache.lookup? (handle (Id.ofName name)) = none ∧
      ∀ h, h ≠ handle (Id.ofName name) →
        s'.cache.lookup? h =
          (s.cache.lookup? h).bind (Entry.dropping (man.handles.count h)) := by
  obtain ⟨c', hunload, hc', hself, hothers⟩ := exists_of_unloadPackage hc hman
  have hserve : play (serve (.unloadPackage name)) s =
      (.ok (), ⟨s.host, c'⟩) := by
    rw [serve, play_doing, hunload]
  obtain ⟨k', text, hk', hexec⟩ := exists_play_unload hcommands hasks hserve
  exact ⟨[text],
    ⟨{ s.host with console := k' }, { c' with autoload := wantsAutoload k' }⟩,
    hexec, hc'.withAutoload _, hk', hself, hothers⟩

/-! ### Loads and unloads -/

variable {α : Type} {conduct : Conduct} {m m₀ : Machine α} {es : List Event}

/-- From any calm moment of any course, on a host with the commands that it
registers and for a package that is not there: after `k + 1` lines that load it,
each of which succeeds and whose load is over before the next, the first line
that unloads it succeeds.  Every further one finds the package gone, and leaves
the cache as it is.  Every other resource then has the references of `k` loads
besides those from before; the package itself is gone even where it lists
itself.  So a single unload undoes a single load. -/
theorem unloads_after_loads (h₀ : m₀.Starts conduct)
    (hr : Machine.Course conduct m₀ es m)
    (hrest : ∀ t ∈ m.threads, t.atRest = true) {s s₁ : Scene}
    (hcache : s.cache = m.cache)
    (hcommands : s.host.console.commands = commandTable) {name : String}
    (habsent : s.cache.lookup? (handle (Id.ofName name)) = none) {k : Nat}
    {loads : List String} (hloads : Loads name loads s s₁)
    (hk : loads.length = k + 1) {first : String}
    (hfirst : Asks "package.unload" name first) {further : List String}
    (hfurther : ∀ line ∈ further, Asks "package.unload" name line) :
    ∃ man out s₂ s₃,
      (manifest (Id.ofName name)).run s₁.cache = (.ok man, s₁.cache) ∧
      play (exec first) s₁ = (.ok out, s₂) ∧ Refused name further s₂ s₃ ∧
      s₃.cache = s₂.cache ∧ s₃.cache.lookup? (handle (Id.ofName name)) = none ∧
      (∀ h e, s.cache.lookup? h = some e → 1 ≤ e.refCount →
        s₃.cache.lookup? h =
          some (e.counting (e.refCount + k * man.handles.count h))) ∧
      (∀ h, s.cache.lookup? h = none → k * man.handles.count h = 0 →
        s₃.cache.lookup? h = none) ∧
      (∀ h, s.cache.lookup? h = none → h ≠ handle (Id.ofName name) →
        k * man.handles.count h ≠ 0 →
          ∃ e, s₃.cache.lookup? h = some e ∧ e.state = .online ∧
          e.refCount = k * man.handles.count h) ∧
      ∀ h ∉ man.handles, h ≠ handle (Id.ofName name) →
        s₃.cache.lookup? h = s.cache.lookup? h := by
  have hc : s.cache.Calm := by
    rw [hcache]
    exact hr.calm h₀ hrest
  have hne : loads ≠ [] := by
    rintro rfl
    cases hk
  obtain ⟨hcommands₁, man, hman, htook⟩ := hloads.took hne hc hcommands
  rw [hk] at htook
  obtain ⟨out, s₂, hplay, hc₂, hcommands₂, hself, hothers⟩ :=
    exists_of_unload hfirst htook.calm hcommands₁ hman
  obtain ⟨s₃, hrefused⟩ := exists_refused hfurther hc₂ hcommands₂ hself
  refine ⟨man, out, s₂, s₃, hman, hplay, hrefused, hrefused.cache_eq, ?_⟩
  -- What the first unload leaves is what is left in the end.
  rw [hrefused.cache_eq]
  have hgains : ∀ h, h ≠ handle (Id.ofName name) →
      Entry.Gains ((k + 1) * man.handles.count h) (s.cache.lookup? h)
        (s₁.cache.lookup? h) := by
    intro h hh
    rw [← count_takenBy hh]
    exact htook.gains h
  have hgone : ∀ h, s.cache.lookup? h = none → h ≠ handle (Id.ofName name) →
      Entry.Gains (k * man.handles.count h) none (s₂.cache.lookup? h) := by
    intro h hl hh
    rw [hothers h hh]
    exact (hl ▸ hgains h hh).dropping_one_of_absent
  refine ⟨hself, fun h e hl he => ?held, fun h hl hzero => ?absent,
    fun h hl hh hpos => (hgone h hl hh).exists_online hpos,
    fun h hh hne => ?unlisted⟩
  case held =>
    have hh : h ≠ handle (Id.ofName name) := by
      rintro rfl
      rw [habsent] at hl
      cases hl
    rw [hothers h hh]
    exact (hl ▸ hgains h hh).dropping_one_of_held he
  case absent =>
    by_cases hh : h = handle (Id.ofName name)
    · rw [hh, hself]
    · have hg := hgone h hl hh
      rw [hzero] at hg
      exact hg.eq_none
  case unlisted =>
    have hg := hgains h hne
    have hlook := hothers h hne
    rw [List.count_eq_zero_of_not_mem hh] at hg hlook
    rw [hlook]
    exact hg.dropping_of_zero

/-! ### A package that lists itself -/

instance {β : Type} [DecidableEq β] : DecidableEq (Except Failure β)
  | .ok a, .ok b => decidable_of_iff (a = b) (by simp)
  | .error f, .error g => decidable_of_iff (f = g) (by simp)
  | .ok _, .error _ => .isFalse nofun
  | .error _, .ok _ => .isFalse nofun

/-- The handle of a script. -/
def script (name : String) : Handle := ⟨Id.ofName "script", Id.ofName name⟩

/-- A package that lists itself, a script twice, and another script. -/
def selfListing : Source :=
  .memory (((Table.empty.put (handle (Id.ofName "crate")) (Text.toBytes
    "\x7b\"script\":[\"a\",\"a\",\"b\"],\"package\":[\"crate\"]\x7d")).put
    (script "a") [1]).put (script "b") [2])

/-- A caller of the cache of a new host, who loads one of the scripts. -/
def scriptLoader : Machine (Except Failure Unit) where
  cache := newCache {} selfListing
  threads := [.ofProgram (Cache.load (script "b").type [(script "b").name])]

theorem starts_scriptLoader : scriptLoader.Starts Machine.builtinConduct := by
  refine ⟨rfl, rfl, fun t ht => ?_, fun _ _ hk => hk⟩
  rw [List.mem_singleton.1 ht]
  exact ⟨_, rfl, Cache.load_honest _ _⟩

/-- Whether a line succeeds and the load that it schedules goes well. -/
def loadsOnce (name line : String) (s : Scene) : Bool :=
  ((play (exec line) s).1 matches .ok _) &&
    (play (exec line) s).2.host.pending.waiting (Id.ofName name) =
      s.host.pending.waiting (Id.ofName name) ++ [.ok ()]

theorem Loads.cons_of_once {name line : String} {lines rest : List String}
    {s s' : Scene} (hasked : asked line = "package.load" :: name :: rest)
    (honce : loadsOnce name line s = true)
    (hrest : Loads name lines (play (exec line) s).2 s') :
    Loads name (line :: lines) s s' := by
  rw [loadsOnce, Bool.and_eq_true, decide_eq_true_eq] at honce
  obtain ⟨hok, hover⟩ := honce
  split at hok
  · rename_i out hout
    have hplay : play (exec line) s = (.ok out, (play (exec line) s).2) :=
      Prod.ext hout rfl
    exact .cons ⟨rest, hasked⟩ hplay hover hrest
  · cases hok

/-- Two lines that load the package. -/
def loadLines : List String :=
  ["package.load crate", "package.load \"crate\" again"]

theorem asks_unload : Asks "package.unload" "crate" "package.unload crate" :=
  ⟨[], by decide +kernel⟩

/-- A script that is held before has its own reference and that of one load
behind two loads and two unloads. -/
theorem unloads_after_loads_of_selfListing :
    scriptLoader.Starts Machine.builtinConduct ∧
      ∃ (es : List Event) (m : Machine (Except Failure Unit))
        (s s₁ s₂ s₃ : Scene) (e : Entry) (man : Manifest) (out : List String),
        Machine.Course Machine.builtinConduct scriptLoader es m ∧
          (∀ t ∈ m.threads, t.atRest = true) ∧ s.cache = m.cache ∧
          s.host.console.commands = commandTable ∧
          s.cache.lookup? (handle (Id.ofName "crate")) = none ∧
          Loads "crate" loadLines s s₁ ∧
          Asks "package.unload" "crate" "package.unload crate" ∧
          s.cache.lookup? (script "b") = some e ∧ 1 ≤ e.refCount ∧
          (manifest (Id.ofName "crate")).run s₁.cache = (.ok man, s₁.cache) ∧
          play (exec "package.unload crate") s₁ = (.ok out, s₂) ∧
          Refused "crate" ["package.unload crate"] s₂ s₃ ∧ s₃.cache = s₂.cache ∧
          s₃.cache.lookup? (handle (Id.ofName "crate")) = none ∧
          s₃.cache.lookup? (script "b") =
            some (e.counting (e.refCount +
              1 * man.handles.count (script "b"))) := by
  have hrun := Machine.exists_course Machine.builtinConduct scriptLoader
    (List.replicate 11 0)
    (P := fun _ m => (∀ t ∈ m.threads, t.atRest = true) ∧
      (m.cache.lookup? (handle (Id.ofName "crate"))).isNone ∧
      (m.cache.lookup? (script "b")).any (fun e => 1 ≤ e.refCount) ∧
      loadsOnce "crate" "package.load crate" ⟨Host.new {}, m.cache⟩ ∧
      loadsOnce "crate" "package.load \"crate\" again"
        (play (exec "package.load crate") ⟨Host.new {}, m.cache⟩).2)
    (by decide +kernel)
  obtain ⟨es, m, hr, hend⟩ := hrun
  obtain ⟨hrest, habsent, hheld, honce, hagain⟩ := of_decide_eq_true hend
  rw [Option.isNone_iff_eq_none] at habsent
  obtain ⟨e, hl, he⟩ := (Option.any_eq_true _ _).1 hheld
  have hone : 1 ≤ e.refCount := of_decide_eq_true he
  have hloads : Loads "crate" loadLines ⟨Host.new {}, m.cache⟩ _ :=
    .cons_of_once rfl honce (.cons_of_once rfl hagain (.nil _))
  have hfurther : ∀ line ∈ ["package.unload crate"],
      Asks "package.unload" "crate" line := by
    intro line hline
    rw [List.mem_singleton.1 hline]
    exact asks_unload
  obtain ⟨man, out, s₂, s₃, hman, hplay, hrefused, hsame, hgone, hkept, -⟩ :=
    unloads_after_loads (k := 1) starts_scriptLoader hr hrest rfl rfl habsent
      hloads rfl asks_unload hfurther
  exact ⟨starts_scriptLoader, es, m, _, _, s₂, s₃, e, man, out, hr, hrest, rfl,
    rfl, habsent, hloads, asks_unload, hl, hone, hman, hplay, hrefused, hsame,
    hgone, hkept _ e hl hone⟩

/-- The scene behind some lines that are executed one after another. -/
def behind (lines : List String) (s : Scene) : Scene :=
  lines.foldl (fun s line => (play (exec line) s).2) s

/-- A new host that has loaded the package twice. -/
def loadedTwice : Scene := behind loadLines (newScene {} selfListing)

theorem loads_loadedTwice :
    Loads "crate" loadLines (newScene {} selfListing) loadedTwice :=
  .cons_of_once rfl (by decide +kernel)
    (.cons_of_once rfl (by decide +kernel) (.nil _))

/-- Loaded twice and unloaded twice: the second unload fails, and a script that
was absent before has the two references of one load. -/
theorem unloads_do_not_undo_loads :
    ∃ s₁ s₂ s₃ out, Loads "crate" loadLines (newScene {} selfListing) s₁ ∧
      (newScene {} selfListing).cache.lookup? (handle (Id.ofName "crate")) =
        none ∧
      (newScene {} selfListing).cache.lookup? (script "a") = none ∧
      play (exec "package.unload crate") s₁ = (.ok out, s₂) ∧
      play (exec "package.unload crate") s₂ = (notThere "crate", s₃) ∧
      (s₃.cache.lookup? (script "a")).map (·.refCount) = some 2 := by
  have hfirst : (play (exec "package.unload crate") loadedTwice).1 =
      .ok ["package crate unloaded"] := by decide +kernel
  have hsecond : (play (exec "package.unload crate")
      (behind ["package.unload crate"] loadedTwice)).1 = notThere "crate" := by
    decide +kernel
  have hleft : ((behind ["package.unload crate", "package.unload crate"]
      loadedTwice).cache.lookup? (script "a")).map (·.refCount) = some 2 := by
    decide +kernel
  exact ⟨loadedTwice, _, _, _, loads_loadedTwice, rfl, rfl, Prod.ext hfirst rfl,
    Prod.ext hsecond rfl, hleft⟩

end Host

end ResourceHost
