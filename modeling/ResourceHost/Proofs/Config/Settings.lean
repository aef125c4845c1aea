import ResourceHost.Config
import ResourceHost.Proofs.Json.Records

/-!
# Settings, written and read

A configuration is read back from its text.  Any other object that gives some
settings, each at most once, is read as the default configuration with those in
their place, in whatever order they come, however they are spelled, and whatever
other members stand among them.
-/

namespace ResourceHost.Config

open Json Json.Reader

/-! ### Settings -/

/-- One setting of a host. -/
inductive Setting where
  | buildDir (path : String)
  | platform (name : String)
  | bootPackage (name : String)
  | bootUnit (name? : Option String)
  | autoload (on : Bool)
  deriving DecidableEq, Repr

namespace Setting

/-- The key under which a setting is written. -/
def key : Setting → String
  | .buildDir _ => "build_dir"
  | .platform _ => "platform"
  | .bootPackage _ => "boot_package"
  | .bootUnit _ => "boot_unit"
  | .autoload _ => "autoload"

/-- The configuration with a setting in its place. -/
def replace (c : Config) : Setting → Config
  | .buildDir path => { c with buildDir := path }
  | .platform name => { c with platform := name }
  | .bootPackage name => { c with bootPackage := name }
  | .bootUnit name? => { c with bootUnit := name? }
  | .autoload on => { c with autoload := on }

/-- The draft that has a setting besides. -/
def draft (d : Draft) : Setting → Draft
  | .buildDir path => { d with buildDir := some path }
  | .platform name => { d with platform := some name }
  | .bootPackage name => { d with bootPackage := some name }
  | .bootUnit name? => { d with bootUnit := some name? }
  | .autoload on => { d with autoload := some on }

end Setting

/-- A text writes the value of a setting, between quotes in any spelling. -/
inductive Setting.Writes : Setting → List Char → Prop where
  | buildDir {cs : List Char} {path : String} (h : Spells cs path.toList) :
      Writes (.buildDir path) ('"' :: (cs ++ ['"']))
  | platform {cs : List Char} {name : String} (h : Spells cs name.toList) :
      Writes (.platform name) ('"' :: (cs ++ ['"']))
  | bootPackage {cs : List Char} {name : String} (h : Spells cs name.toList) :
      Writes (.bootPackage name) ('"' :: (cs ++ ['"']))
  | bootUnit {cs : List Char} {name : String} (h : Spells cs name.toList) :
      Writes (.bootUnit (some name)) ('"' :: (cs ++ ['"']))
  | noBootUnit : Writes (.bootUnit none) ['n', 'u', 'l', 'l']
  | autoload : Writes (.autoload true) ['t', 'r', 'u', 'e']
  | noAutoload : Writes (.autoload false) ['f', 'a', 'l', 's', 'e']

/-- The members inside an object, with the settings that they give.  Among the
members of settings there may be any others, of whatever value, if their keys
are texts of no setting. -/
inductive Members : (first : Bool) → List Setting → List Char → Prop where
  | none {first : Bool} : Members first [] []
  | setting {first : Bool} {s : Setting} {ss : List Setting}
      {l k w w' v ms : List Char} (hl : Lead first l)
      (hk : Spells k s.key.toList) (hw : Blank w) (hw' : Blank w')
      (hv : s.Writes v) (h : Members false ss ms) :
      Members first (s :: ss) (l ++ (memberText k w w' v ++ ms))
  | other {first : Bool} {key : String} {ss : List Setting}
      {l k w w' v ms : List Char} (hl : Lead first l) (hk : Spells k key.toList)
      (hkey : key ∉ layout.map Field.key) (hw : Blank w) (hw' : Blank w')
      (hv : Written .value v) (h : Members false ss ms) :
      Members first ss (l ++ (memberText k w w' v ++ ms))

/-- The text of an object that gives some settings, with blanks around it. -/
inductive ObjectText (ss : List Setting) : List Char → Prop where
  | object {w ms w' w'' : List Char} (hw : Blank w) (hms : Members true ss ms)
      (hw' : Blank w') (hw'' : Blank w'') :
      ObjectText ss (w ++ '\x7b' :: (ms ++ (w' ++ '\x7d' :: w'')))

/-! ### One setting -/

namespace Setting

theorem ofDraft_draft (d : Draft) (s : Setting) :
    ofDraft (s.draft d) = s.replace (ofDraft d) := by
  cases s <;> rfl

/-- Whether a draft has the setting already. -/
def isSet (d : Draft) : Setting → Bool
  | .buildDir _ => d.buildDir.isSome
  | .platform _ => d.platform.isSome
  | .bootPackage _ => d.bootPackage.isSome
  | .bootUnit _ => d.bootUnit.isSome
  | .autoload _ => d.autoload.isSome

theorem isSet_draft {d : Draft} {s s' : Setting} (h : s.key ≠ s'.key) :
    s'.isSet (s.draft d) = s'.isSet d := by
  cases s <;> cases s' <;> first | rfl | exact absurd rfl h

/-- Every setting has a field, which reads it from any text of it. -/
theorem exists_field (s : Setting) (d : Draft) :
    ∃ f, layout.find? s.key = some f ∧ f.isSet d = s.isSet d ∧
      ∀ v, s.Writes v → f.Fills d v (s.draft d) := by
  cases s with
  | buildDir path =>
    refine ⟨_, rfl, rfl, fun v hv scope w rest hw _ => ?_⟩
    cases hv with
    | buildDir h => exact bind_of_ok (text_spells hw h rest) _
  | platform name =>
    refine ⟨_, rfl, rfl, fun v hv scope w rest hw _ => ?_⟩
    cases hv with
    | platform h => exact bind_of_ok (text_spells hw h rest) _
  | bootPackage name =>
    refine ⟨_, rfl, rfl, fun v hv scope w rest hw _ => ?_⟩
    cases hv with
    | bootPackage h => exact bind_of_ok (text_spells hw h rest) _
  | bootUnit name? =>
    refine ⟨_, rfl, rfl, fun v hv scope w rest hw _ => ?_⟩
    cases hv with
    | bootUnit h => exact bind_of_ok (optional_spells hw h rest) _
    | noBootUnit => exact bind_of_ok (optional_null text hw rest) _
  | autoload on =>
    refine ⟨_, rfl, rfl, fun v hv scope w rest hw _ => ?_⟩
    cases hv with
    | autoload => exact bind_of_ok (truth_true hw rest) _
    | noAutoload => exact bind_of_ok (truth_false hw rest) _

end Setting

/-! ### Any settings -/

theorem find?_eq_none {key : String} (h : key ∉ layout.map Field.key) :
    layout.find? key = none := by
  refine List.find?_eq_none.2 fun f hf heq => h ?_
  rw [← eq_of_beq heq]
  exact List.mem_map_of_mem hf

/-- Members that give settings which a draft has not yet take the draft as far
as all of them. -/
theorem Members.takesAll {first : Bool} {ss : List Setting} {ms : List Char}
    (h : Members first ss ms) :
    ∀ d : Draft, (∀ s ∈ ss, s.isSet d = false) → (ss.map Setting.key).Nodup →
      layout.TakesAll first d ms (ss.foldl Setting.draft d) := by
  induction h with
  | none => exact fun d _ _ => .none
  | @setting first s ss l k w w' v ms hl hk hw hw' hv h ih =>
    intro d hfree hkeys
    obtain ⟨f, hf, hset, hfills⟩ := s.exists_field d
    rw [List.map_cons, List.nodup_cons] at hkeys
    have hfree' : ∀ s' ∈ ss, s'.isSet (s.draft d) = false := by
      intro s' hs'
      have hne : s.key ≠ s'.key :=
        fun heq => hkeys.1 (heq ▸ List.mem_map_of_mem hs')
      rw [Setting.isSet_draft hne]
      exact hfree s' (List.mem_cons_of_mem s hs')
    have hset' : f.isSet d = false := hset.trans (hfree s List.mem_cons_self)
    exact .some hl (.field hk hw hw' hf hset' (hfills v hv))
      (ih _ hfree' hkeys.2)
  | @other first key ss l k w w' v ms hl hk hkey hw hw' hv h ih =>
    intro d hfree hkeys
    exact .some hl (.other hk hw hw' (find?_eq_none hkey) hv) (ih d hfree hkeys)

theorem ofDraft_foldl (ss : List Setting) (d : Draft) :
    ofDraft (ss.foldl Setting.draft d) =
      ss.foldl Setting.replace (ofDraft d) := by
  induction ss generalizing d with
  | nil => rfl
  | cons s ss ih =>
    rw [List.foldl_cons, List.foldl_cons, ih, Setting.ofDraft_draft]

theorem ofText_of_objectText {ss : List Setting} {text : List Char}
    (h : ObjectText ss text) (hkeys : (ss.map Setting.key).Nodup) :
    ofText (String.ofList text) = .ok (ss.foldl Setting.replace {}) := by
  cases h with
  | @object w ms w' w'' hw hms hw' hw'' =>
    have hbytes : Text.encode (w ++ '\x7b' :: (ms ++ (w' ++ '\x7d' :: w''))) =
        Text.encode w ++ byte '\x7b' :: (Text.encode ms ++
          (Text.encode w' ++ byte '\x7d' :: Text.encode w'')) := by
      rw [Text.encode_append, encode_ascii_cons (c := '\x7b') (by decide),
        Text.encode_append, Text.encode_append,
        encode_ascii_cons (c := '\x7d') (by decide)]
    have htakes : layout.TakesAll true {} ms (ss.foldl Setting.draft {}) :=
      hms.takesAll {} (fun s _ => by cases s <;> rfl) hkeys
    have hreader : ∀ turns, ms.length < turns →
        reader ⟨turns, maxDepth⟩
            (Text.encode (w ++ '\x7b' :: (ms ++ (w' ++ '\x7d' :: w'')))) =
          .ok (ss.foldl Setting.replace {}, Text.encode w'') := by
      intro turns hturns
      have hread : layout.read {} ⟨turns, maxDepth⟩ (Text.encode w ++
        byte '\x7b' ::
          (Text.encode ms ++
              (Text.encode w' ++ byte '\x7d' :: Text.encode w''))) =
            .ok (ss.foldl Setting.draft {}, Text.encode w'') :=
        Layout.read_object htakes rfl hw hw' hturns
      rw [hbytes, reader]
      refine (bind_of_ok hread _).trans ?_
      rw [ofDraft_foldl]
      rfl
    have hturns : ms.length <
        (Text.encode (w ++ '\x7b' :: (ms ++ (w' ++ '\x7d' :: w'')))).length +
          1 := by
      have hlength := Text.length_le_length_encode ms
      simp only [hbytes, List.length_append, List.length_cons]
      omega
    have hrest : (Text.encode w'').dropWhile isSpace = [] := by
      simpa using hw''.dropWhile []
    rw [ofText, Text.toBytes_ofList, run, hreader _ hturns]
    dsimp only
    rw [hrest]
    rfl

/-! ### All settings -/

/-- The value of a setting. -/
def Setting.value : Setting → Value
  | .buildDir path => .text path
  | .platform name => .text name
  | .bootPackage name => .text name
  | .bootUnit (some name) => .text name
  | .bootUnit none => .null
  | .autoload on => .truth on

theorem Setting.writes_value (s : Setting) : s.Writes s.value.print := by
  cases s with
  | buildDir path => exact .buildDir (spells_print _)
  | platform name => exact .platform (spells_print _)
  | bootPackage name => exact .bootPackage (spells_print _)
  | bootUnit name? =>
    cases name? with
    | none => exact .noBootUnit
    | some name => exact .bootUnit (spells_print _)
  | autoload on =>
    cases on with
    | true => exact .autoload
    | false => exact .noAutoload

/-- All settings of a configuration, in the order of its text. -/
def settings (c : Config) : List Setting :=
  [.buildDir c.buildDir, .platform c.platform, .bootPackage c.bootPackage,
    .bootUnit c.bootUnit, .autoload c.autoload]

theorem toJson_eq (c : Config) :
    c.toJson = .object (c.settings.map fun s => (s.key, s.value)) := by
  rw [toJson]
  cases hunit : c.bootUnit <;>
    simp [settings, Setting.key, Setting.value, hunit]

/-- The printed member of a setting. -/
def Setting.print (s : Setting) : List Char := Print.member s.key s.value.print

theorem Setting.print_eq (s : Setting) :
    s.print = memberText (s.key.toList.flatMap Print.char) [] []
      s.value.print :=
  Print.member_eq s.key s.value.print

theorem members_print (ss : List Setting) :
    Members false ss (ss.flatMap (',' :: Setting.print ·)) := by
  induction ss with
  | nil => exact .none
  | cons s ss ih =>
    have hmember := Members.setting (.next blank_nil blank_nil) (spells_print _)
      blank_nil blank_nil
      s.writes_value ih
    rwa [← Setting.print_eq] at hmember

theorem members_commas (ss : List Setting) :
    Members true ss (Print.commas (ss.map Setting.print)) := by
  cases ss with
  | nil => exact .none
  | cons s ss =>
    have hmember := Members.setting (.first blank_nil) (spells_print _)
      blank_nil blank_nil
      s.writes_value (members_print ss)
    rw [← Setting.print_eq] at hmember
    rw [List.map_cons, Print.commas_cons, List.flatMap_map]
    exact hmember

theorem objectText_compact (c : Config) :
    ObjectText c.settings c.compact.toList := by
  have hprint : c.compact.toList =
      [] ++ '\x7b' :: (Print.commas (c.settings.map Setting.print) ++
        ([] ++ '\x7d' :: [])) := by
    rw [compact, toJson_eq, Value.compact, String.toList_ofList, Value.print,
      Value.printMembers_eq, List.map_map]
    rfl
  rw [hprint]
  exact .object blank_nil (members_commas _) blank_nil blank_nil

theorem foldl_settings (c : Config) : c.settings.foldl Setting.replace {} = c :=
  rfl

theorem nodup_settings (c : Config) : (c.settings.map Setting.key).Nodup := by
  show ["build_dir", "platform", "boot_package", "boot_unit", "autoload"].Nodup
  decide

/-- A configuration is read back from its text, and from any object that gives
some settings, each at most once, the default configuration is read with exactly
those in their place. -/
theorem settings_survive :
    (∀ c : Config, ofText c.compact = .ok c) ∧
      ∀ (ss : List Setting) (text : List Char), ObjectText ss text →
        (ss.map Setting.key).Nodup →
        ofText (String.ofList text) = .ok (ss.foldl Setting.replace {}) := by
  refine ⟨fun c => ?_, fun ss text h hkeys => ofText_of_objectText h hkeys⟩
  have hread := ofText_of_objectText (objectText_compact c) c.nodup_settings
  rwa [String.ofList_toList, foldl_settings] at hread

/-- An object with one setting, behind a member that nobody wants. -/
def levelText : String :=
  "\x7b\"others\": [1, \x7b\x7d], \"boot_unit\":\"level\\u0031\" \x7d"

/-- The setting is read and the rest is as ever, whatever the other member
holds. -/
theorem settings_survive_level :
    ObjectText [.bootUnit (some "level1")] levelText.toList ∧
      ([.bootUnit (some "level1")].map Setting.key).Nodup ∧
      ofText levelText = .ok { bootUnit := some "level1" } := by
  have hspace : Blank [' '] := by simp [Blank]
  have hone : Magnitude ['1'] := by
    have hdigits : Digits ['1'] :=
      ⟨nofun, fun d hd => by rw [List.mem_singleton.1 hd]; rfl⟩
    exact .parts ⟨hdigits, nofun⟩ .none .none
  have hitems : Written (.inside .array true) ['1', ',', ' ', '\x7b', '\x7d'] :=
    .some (.first blank_nil) (.item (.positive hone))
      (.some (.next blank_nil hspace)
        (.item (.enclosed (k := .object) .none blank_nil)) .none)
  have hvalue : Written .value ['[', '1', ',', ' ', '\x7b', '\x7d', ']'] :=
    .enclosed (k := .array) hitems blank_nil
  have hlevel : Spells "level\\u0031".toList "level1".toList :=
    spells_char 'l'
      (spells_char 'e' (spells_char 'v' (spells_char 'e' (spells_char 'l'
        (.code (.digits (x := 0) (y := 0) (z := 3) (w := 1) rfl rfl rfl rfl)
          (by decide) .nil)))))
  have hsetting : Members false [.bootUnit (some "level1")]
      ", \"boot_unit\":\"level\\u0031\"".toList :=
    .setting (.next blank_nil hspace) (spells_print _) blank_nil blank_nil
      (.bootUnit hlevel) .none
  have htext : ObjectText [.bootUnit (some "level1")] levelText.toList :=
    .object blank_nil (.other (.first blank_nil) (spells_print "others".toList)
        (by decide)
      blank_nil hspace hvalue hsetting) hspace blank_nil
  have hkeys : ([Setting.bootUnit (some "level1")].map Setting.key).Nodup := by
    decide
  refine ⟨htext, hkeys, ?_⟩
  have hread := settings_survive.2 _ _ htext hkeys
  rwa [String.ofList_toList] at hread

end ResourceHost.Config
