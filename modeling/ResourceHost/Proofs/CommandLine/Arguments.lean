import ResourceHost.CommandLine

/-!
# What arguments mean

Arguments are flags with their values and words of no meaning.  They are gone
through twice, once for the file and once for the settings, with different rules
for what stands behind a flag; where no value and no other word is itself a
flag, both come to the same items.  The first file that is named counts, and of
each other flag the last value.
-/

namespace ResourceHost.CommandLine

/-! ### Items -/

/-- A word that writes no flag. -/
abbrev Word := { w : String // Flag.ofWord? w = none }

/-- A flag that takes a value. -/
abbrev ValueFlag := { f : Flag // f ≠ .autoload }

/-- What stands together on a command line. -/
inductive Item where
  /-- A flag with its value. -/
  | valued (f : ValueFlag) (v : Word)
  | autoload
  /-- A word of no meaning. -/
  | stray (w : Word)
  deriving DecidableEq

namespace Item

/-- The words that write an item. -/
def words : Item → List String
  | .valued f v => [f.1.word, v.1]
  | .autoload => [Flag.autoload.word]
  | .stray w => [w.1]

/-- The setting that an item makes. -/
def apply (c : Config) : Item → Config
  | .valued f v => f.1.setting?.elim c fun set => set v.1 c
  | .autoload => { c with autoload := true }
  | .stray _ => c

/-- The value that an item gives for a flag. -/
def value? (f : Flag) : Item → Option String
  | .valued g v => if g.1 = f then some v.1 else none
  | _ => none

end Item

/-- The arguments that write some items, and behind them perhaps a flag whose
value is missing. -/
def arguments (items : List Item) (last : Option ValueFlag) : List String :=
  items.flatMap Item.words ++ last.toList.map fun f => f.1.word

theorem arguments_cons (item : Item) (items : List Item)
    (last : Option ValueFlag) :
    arguments (item :: items) last = item.words ++ arguments items last := by
  rw [arguments, List.flatMap_cons, List.append_assoc]
  rfl

/-- The values that are given for a flag, from left to right. -/
def valuesOf (f : Flag) (items : List Item) : List String :=
  items.filterMap (Item.value? f)

/-- A configuration in which each setting that items give has its last value. -/
def configured (c : Config) (items : List Item) : Config where
  buildDir := (valuesOf .buildDir items).getLast?.getD c.buildDir
  platform := (valuesOf .platform items).getLast?.getD c.platform
  bootPackage := (valuesOf .bootPackage items).getLast?.getD c.bootPackage
  bootUnit := (valuesOf .bootUnit items).getLast?.or c.bootUnit
  autoload := c.autoload || items.contains .autoload

/-! ### Words -/

theorem Flag.ofWord?_word (f : Flag) : Flag.ofWord? f.word = some f := by
  cases f <;> decide

theorem Flag.word_inj {f g : Flag} (h : f.word = g.word) : f = g :=
  Option.some.inj ((ofWord?_word f).symm.trans
    ((congrArg ofWord? h).trans (ofWord?_word g)))

theorem Word.ne_word (w : Word) (f : Flag) : w.1 ≠ f.word := by
  intro h
  cases w.2.symm.trans ((congrArg Flag.ofWord? h).trans f.ofWord?_word)

/-! ### Settings -/

variable (c : Config) (rest : List String)

theorem override_word (w : Word) :
    override c (w.1 :: rest) = override c rest := by
  cases rest with
  | nil => simp [override, w.2]
  | cons v rest => simp [override, w.2]

theorem override_autoload :
    override c (Flag.autoload.word :: rest) =
      override { c with autoload := true } rest := by
  cases rest with
  | nil => simp [override, Flag.ofWord?_word]
  | cons v rest => simp [override, Flag.ofWord?_word]

theorem override_valued (f : ValueFlag) (v : Word) :
    override c (f.1.word :: v.1 :: rest) =
      override (Item.apply c (.valued f v)) rest := by
  obtain ⟨f, hf⟩ := f
  cases f with
  | autoload => exact absurd rfl hf
  | config =>
    -- The path behind the flag is passed over as a word of no meaning.
    have hpass : override c (Flag.config.word :: v.1 :: rest) =
        override c (v.1 :: rest) := by
      simp [override, Flag.ofWord?_word, Flag.setting?]
    exact hpass.trans (override_word c rest v)
  | _ => simp [override, Flag.ofWord?_word, Flag.setting?, Item.apply]

/-- A flag without its value makes no setting. -/
theorem override_last (f : ValueFlag) : override c [f.1.word] = c := by
  have hne : some f.1 ≠ some Flag.autoload := fun h => f.2 (Option.some.inj h)
  rw [override, Flag.ofWord?_word, if_neg hne]

/-- The settings of arguments are those of their items, one after another. -/
theorem override_arguments (items : List Item) (last : Option ValueFlag) :
    override c (arguments items last) = items.foldl Item.apply c := by
  induction items generalizing c with
  | nil =>
    cases last with
    | none => rfl
    | some f => exact override_last c f
  | cons item items ih =>
    rw [arguments_cons, List.foldl_cons, ← ih]
    cases item with
    | valued f v => exact override_valued c _ f v
    | autoload => exact override_autoload c _
    | stray w => exact override_word c _ w

theorem valuesOf_valued (f : Flag) (g : ValueFlag) (v : Word)
    (items : List Item) :
    valuesOf f (.valued g v :: items) =
      if g.1 = f then v.1 :: valuesOf f items else valuesOf f items := by
  by_cases h : g.1 = f <;> simp [valuesOf, Item.value?, h]

theorem configured_cons (item : Item) (items : List Item) :
    configured c (item :: items) = configured (item.apply c) items := by
  cases item with
  | valued f v =>
    obtain ⟨f, hf⟩ := f
    cases f with
    | autoload => exact absurd rfl hf
    | _ =>
      simp [configured, valuesOf_valued, Item.apply, Flag.setting?,
        List.getLast?_cons]
  | autoload => simp [configured, valuesOf, Item.value?, Item.apply]
  | stray w => simp [configured, valuesOf, Item.value?, Item.apply]

/-- Items, one after another, leave each setting with its last value. -/
theorem foldl_apply (items : List Item) :
    items.foldl Item.apply c = configured c items := by
  induction items generalizing c with
  | nil => simp [configured, valuesOf]
  | cons item items ih => rw [List.foldl_cons, ih, configured_cons]

/-- Only the values of each flag matter, in their order, and whether autoload is
asked for. -/
theorem configured_congr {items items' : List Item}
    (hvalues : ∀ f, valuesOf f items' = valuesOf f items)
    (hauto : .autoload ∈ items' ↔ .autoload ∈ items) :
    configured c items' = configured c items := by
  have hcontains : items'.contains .autoload = items.contains .autoload := by
    rw [Bool.eq_iff_iff, List.contains_iff_mem, List.contains_iff_mem]
    exact hauto
  simp only [configured, hvalues, hcontains]

/-! ### The file -/

theorem configPath?_of_ne {w : String} (h : w ≠ Flag.config.word) :
    configPath? (w :: rest) = configPath? rest := if_neg h

theorem configPath?_valued (f : ValueFlag) (v : Word) :
    configPath? (f.1.word :: v.1 :: rest) =
      if f.1 = .config then some v.1 else configPath? rest := by
  by_cases h : f.1 = .config
  · rw [h, configPath?, if_pos rfl, if_pos rfl]
    rfl
  · rw [configPath?_of_ne _ (mt Flag.word_inj h),
      configPath?_of_ne _ (v.ne_word _), if_neg h]

/-- The file of arguments is the first that an item names. -/
theorem configPath?_arguments (items : List Item) (last : Option ValueFlag) :
    configPath? (arguments items last) = (valuesOf .config items).head? := by
  induction items with
  | nil =>
    cases last with
    | none => rfl
    | some f =>
      show (if f.1.word = Flag.config.word then none else none) = none
      exact ite_self _
  | cons item items ih =>
    rw [arguments_cons]
    cases item with
    | valued f v =>
      have hpath := configPath?_valued (arguments items last) f v
      rw [ih] at hpath
      rw [valuesOf_valued]
      exact hpath.trans (by split <;> rfl)
    | autoload => exact (configPath?_of_ne _ (by decide)).trans ih
    | stray w => exact (configPath?_of_ne _ (w.ne_word _)).trans ih

/-! ### The configuration of a run -/

variable {c rest} {readText : String → Except Failure String}
  {items items' : List Item}

/-- The configuration that items ask for: that of the first file they name, or
the default, with the settings that they give in its place. -/
theorem configOf_arguments (last : Option ValueFlag) :
    configOf readText (arguments items last) =
      match (valuesOf .config items).head? with
      | none => .ok (configured {} items)
      | some path =>
        (readConfig readText path).map fun c => configured c items := by
  have hoverride : ∀ c,
      override c (arguments items last) = configured c items := fun c =>
    (override_arguments c items last).trans (foldl_apply c items)
  rw [configOf, configPath?_arguments]
  cases (valuesOf .config items).head? with
  | none => exact congrArg Except.ok (hoverride {})
  | some path =>
    exact congrArg (Except.map · (readConfig readText path)) (funext hoverride)

theorem readConfig_eq_ok_iff {path : String} :
    readConfig readText path = .ok c ↔
      ∃ text, readText path = .ok text ∧ Config.ofText text = .ok c := by
  rw [readConfig]
  cases readText path with
  | error f => simp
  | ok text => cases h : Config.ofText text <;> simp [Activity.explain, h]

/-- A configuration cannot be read only where the text of the file cannot, or
where the text writes none. -/
theorem readConfig_eq_error_iff {path : String} :
    (∃ f, readConfig readText path = .error f) ↔
      (∃ f, readText path = .error f) ∨
        ∃ text f, readText path = .ok text ∧ Config.ofText text = .error f := by
  rw [readConfig]
  cases readText path with
  | error f => simp
  | ok text => cases h : Config.ofText text <;> simp [Activity.explain, h]

/-- A command line fails exactly if the first file that it names cannot be read,
or writes no configuration.  Otherwise it means the configuration of that file,
or the default one, with the last value of each flag in its place, wherever the
flags stand; and it means the same in any order that keeps the values of each
flag in theirs. -/
theorem flags_override_file (readText : String → Except Failure String)
    (items : List Item) (last : Option ValueFlag) :
    ((∃ f, configOf readText (arguments items last) = .error f) ↔
      ∃ path, (valuesOf .config items).head? = some path ∧
        ((∃ f, readText path = .error f) ∨
          ∃ text f, readText path = .ok text ∧ Config.ofText text = .error f)) ∧
    (valuesOf .config items = [] →
      configOf readText (arguments items last) = .ok (configured {} items)) ∧
    (∀ path text c, (valuesOf .config items).head? = some path →
      readText path = .ok text →
      Config.ofText text = .ok c →
      configOf readText (arguments items last) = .ok (configured c items)) ∧
    ∀ items' last', (∀ f, valuesOf f items' = valuesOf f items) →
      (.autoload ∈ items' ↔ .autoload ∈ items) →
      configOf readText (arguments items' last') =
        configOf readText (arguments items last) := by
  refine ⟨?_, fun hnone => ?_, fun path text c hpath htext hc => ?_,
    fun items' last' hvalues hauto => ?_⟩
  · rw [configOf_arguments]
    cases (valuesOf .config items).head? with
    | none => simp
    | some path =>
      have hmap : (∃ f,
            (readConfig readText path).map (fun c => configured c items) =
              .error f) ↔
          ∃ f, readConfig readText path = .error f := by
        cases readConfig readText path <;> simp [Except.map]
      rw [hmap, readConfig_eq_error_iff]
      simp
  · rw [configOf_arguments, hnone]
    rfl
  · rw [configOf_arguments, hpath]
    exact congrArg (Except.map _) (readConfig_eq_ok_iff.2 ⟨text, htext, hc⟩)
  · simp only [configOf_arguments, hvalues, configured_congr _ hvalues hauto]

/-- What stands in a file of settings. -/
def settingsText : String :=
  "\x7b\"build_dir\": \"out\", \"platform\": \"pc\"\x7d"

/-- The one file there is. -/
def settingsFile (path : String) : Except Failure String :=
  if path = "settings.json" then .ok settingsText else .error .inputOutput

/-- The items of a command line that names two files, of which there is one, and
gives the platform twice, in front of the file and behind it. -/
def twoPlatformItems : List Item :=
  [.valued ⟨.platform, by decide⟩ ⟨"tablet", by decide⟩,
    .stray ⟨"extra", by decide⟩,
    .valued ⟨.config, by decide⟩ ⟨"settings.json", by decide⟩,
    .valued ⟨.bootUnit, by decide⟩ ⟨"menu", by decide⟩, .autoload,
    .valued ⟨.config, by decide⟩ ⟨"missing.json", by decide⟩,
    .valued ⟨.platform, by decide⟩ ⟨"phone", by decide⟩]

/-- The last platform counts, and the file gives what no flag does; it comes to
the same with the platforms in front of all else. -/
theorem flags_override_file_of_twoPlatforms :
    ∃ items' : List Item, items' ≠ twoPlatformItems ∧
      (∀ f, valuesOf f items' = valuesOf f twoPlatformItems) ∧
      configOf settingsFile (arguments items' none) =
        configOf settingsFile
          (arguments twoPlatformItems (some ⟨.buildDir, by decide⟩)) ∧
      configOf settingsFile
          (arguments twoPlatformItems (some ⟨.buildDir, by decide⟩)) =
        .ok
          { buildDir := "out", platform := "phone", bootUnit := some "menu"
            autoload := true } ∧
      valuesOf .config [.autoload] = [] ∧
      configOf settingsFile (arguments [.autoload] none) =
        .ok { autoload := true } := by
  have hread : Config.ofText settingsText =
      .ok { buildDir := "out", platform := "pc" } := by
    have hsome : (Config.ofText settingsText).toOption =
        some { buildDir := "out", platform := "pc" } := by decide +kernel
    cases h : Config.ofText settingsText with
    | error f =>
      rw [h] at hsome
      cases hsome
    | ok c =>
      rw [h] at hsome
      exact congrArg Except.ok (Option.some.inj hsome)
  obtain ⟨-, -, hfile, hreorder⟩ :=
    flags_override_file settingsFile twoPlatformItems
      (some ⟨.buildDir, by decide⟩)
  obtain ⟨-, hdefault, -⟩ := flags_override_file settingsFile [.autoload] none
  refine ⟨[.valued ⟨.platform, by decide⟩ ⟨"tablet", by decide⟩,
    .valued ⟨.platform, by decide⟩ ⟨"phone", by decide⟩, .autoload,
    .valued ⟨.bootUnit, by decide⟩ ⟨"menu", by decide⟩,
    .valued ⟨.config, by decide⟩ ⟨"settings.json", by decide⟩,
    .valued ⟨.config, by decide⟩
      ⟨"missing.json", by decide⟩], by decide, ?_, ?_, ?_, rfl, ?_⟩
  · intro f
    cases f <;> decide
  · exact hreorder _ none (fun f => by cases f <;> decide) (by decide)
  · exact hfile "settings.json" settingsText _ (by decide) rfl hread
  · exact hdefault rfl

end ResourceHost.CommandLine
