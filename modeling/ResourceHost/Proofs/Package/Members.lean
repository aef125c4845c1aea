import ResourceHost.Proofs.Cache.Twins
import ResourceHost.Proofs.Json.Containers
import ResourceHost.Proofs.Text.ByteOrder

/-!
# The members of a package

A package is read from an object of lists, in whatever order its members come.
Its groups stand in the order of the bytes of their type names, and of a member
that is repeated only the last counts.  So texts with the same members make the
same manifest, and whatever is loaded because of it is loaded in the same order
and fails at the same place.
-/

namespace ResourceHost.Package

open Json Json.Reader

variable {ms ms' : List (String × List String)} {text text' : String}

/-- The text of a package: an object with its members in their order, each a
list of names. -/
abbrev PackageText (ms : List (String × List String)) (text : String) : Prop :=
  Alone (ObjectOf (ArrayOf TextOf)) text.toList ms

/-- The compact text of a list of names. -/
def printNames (names : List String) : List Char :=
  Print.array (names.map Print.text)

/-- The compact text of some members. -/
def print (ms : List (String × List String)) : List Char :=
  Print.object (ms.map (Print.memberBy printNames))

theorem arrayOf_printNames (names : List String) :
    ArrayOf TextOf (printNames names) names := by
  have hnames : Listed TextOf true (Print.commas (names.map Print.text))
      names :=
    listed_commas fun name _ => .quoted (spells_print name.toList)
  have harray := ArrayOf.array hnames blank_nil
  rwa [List.append_nil] at harray

/-- Any members at all are those of a package. -/
theorem packageText_print (ms : List (String × List String)) :
    PackageText ms (String.ofList (print ms)) := by
  have hmembers : Listed (MemberOf (Behind (ArrayOf TextOf))) true
      (Print.commas (ms.map (Print.memberBy printNames))) ms := by
    refine listed_commas fun m _ => ?_
    rw [Print.memberBy, Print.member_eq]
    have hnames := Behind.blanks blank_nil (arrayOf_printNames m.2)
    exact .member (spells_print _) blank_nil hnames
  have hobject :=
    Alone.blanks (.blanks blank_nil (ObjectOf.object hmembers blank_nil))
      blank_nil
  rw [List.nil_append, List.append_nil, List.append_nil] at hobject
  rw [PackageText, String.toList_ofList]
  exact hobject

/-! ### Manifests -/

namespace Manifest

/-- The groups are those of some members, in strictly ascending order of the
bytes of the keys.  The names of each stand as they come. -/
def Lists (m : Manifest) (ms : List (String × List String)) : Prop :=
  ∃ sorted : List (String × List String), sorted.Perm ms ∧
    (sorted.Pairwise fun g g' => Text.toBytes g.1 < Text.toBytes g'.1) ∧
    m.groups = sorted.map fun g => ⟨Id.ofName g.1, g.2.map Id.ofName⟩

/-- Of each key the last member is listed. -/
theorem lists_ofMembers (ms : List (String × List String)) :
    (ofMembers ms).Lists (Sorted.lastOnly ms) :=
  ⟨Sorted.ofMembers ms, Sorted.ofMembers_perm ms,
    (Sorted.ascending_ofMembers ms).imp Text.toBytes_lt_iff.2, rfl⟩

/-- The order of members does not matter. -/
theorem ofMembers_eq_of_perm
    (h : (Sorted.lastOnly ms).Perm (Sorted.lastOnly ms')) :
    ofMembers ms = ofMembers ms' := by
  rw [ofMembers, ofMembers, Sorted.ofMembers_eq_of_perm h]

/-- Every text of a package is read, as the manifest of its members. -/
theorem ofBytes_of_text (h : PackageText ms text) :
    ofBytes (Text.toBytes text) = .ok (ofMembers ms) := by
  have hobject := (follows_text.array.object).run (by decide) h
  rw [String.ofList_toList] at hobject
  rw [ofBytes, reader, run_map_of_ok hobject]

end Manifest

/-! ### What is loaded -/

/-- Loads a package, and then what it lists. -/
def loadListed (p : NameId) : Program (Except Failure (Except Failure Unit)) :=
  (Cache.load Kind.packageType [p]).orStop fun _ => schedule p

theorem agrees_loadListed {kinds : Table TypeId Kind} (p : NameId) :
    Cache.Agrees kinds (loadListed p).run :=
  (Cache.agrees_load _ _).orStop fun _ => agrees_schedule p

/-- Two caches load a package and what it lists alike: with the same result,
which is the first failure if there is one, and with the same callbacks in the
same order.  They keep the same. -/
def LoadsAlike (p : NameId) (c c' : Cache) : Prop :=
  ∃ result d d', (loadListed p).run c = (result, d) ∧
    (loadListed p).run c' = (result, d') ∧
    d'.shelves = d.shelves ∧
    d'.log.map Callback.outline = d.log.map Callback.outline

theorem loadsAlike_of_twins {kinds : Table TypeId Kind} {c c' : Cache}
    (h : Cache.Twins kinds c c') (p : NameId) : LoadsAlike p c c' := by
  obtain ⟨result, d, d', hrun, hrun', hafter⟩ :=
    (agrees_loadListed p).exists_ends h
  exact ⟨result, d, d', hrun, hrun', hafter.shelves, hafter.calls⟩

/-- Sources with texts of one manifest make twins. -/
theorem twins_of_texts {p : NameId} {c : Cache} {src src' : Source}
    {bytes bytes' : List UInt8}
    (hkind : c.kind? Kind.packageType = some Kind.package)
    (hread : src.read (handle p) = .ok bytes)
    (hread' : src'.read (handle p) = .ok bytes')
    (hothers : ∀ h, h ≠ handle p → src'.read h = src.read h)
    (heq : Manifest.ofBytes bytes' = Manifest.ofBytes bytes) :
    Cache.Twins c.kinds { c with source := src } { c with source := src' } where
  left := rfl
  right := rfl
  shelves := rfl
  calls := rfl
  source h k hk := by
    by_cases hh : h = handle p
    · subst hh
      cases hkind.symm.trans hk
      exact .made hread hread' (congrArg (Except.map Content.package) heq)
    · exact .same (hothers h hh)

/-- A source with the text of a package and nothing else. -/
def soleText (p : NameId) (text : String) : Source :=
  .memory (Table.empty.put (handle p) (Text.toBytes text))

theorem read_soleText (p : NameId) (text : String) :
    (soleText p text).read (handle p) = .ok (Text.toBytes text) := by
  simp only [soleText, Source.read, Table.get?_put_self]

theorem read_soleText_of_ne {p : NameId} {h : Handle} (hh : h ≠ handle p)
    (text : String) : (soleText p text).read h = .error (.noData h) := by
  simp only [soleText, Source.read, Table.get?_put_of_ne _ hh, Table.get?_empty]

/-- Texts with the same members in any order, those of which the key comes again
left out, make one manifest, which lists these members.  And no cache can tell
from which of the texts it loads the package: what the package lists is loaded
alike. -/
theorem members_in_any_order (htext : PackageText ms text)
    (htext' : PackageText ms' text')
    (hsame : (Sorted.lastOnly ms).Perm (Sorted.lastOnly ms')) :
    (∃ m, Manifest.ofBytes (Text.toBytes text) = .ok m ∧
      Manifest.ofBytes (Text.toBytes text') = .ok m ∧
        m.Lists (Sorted.lastOnly ms)) ∧
    ∀ (p : NameId) (c : Cache) (src src' : Source),
      c.kind? Kind.packageType = some Kind.package →
      src.read (handle p) = .ok (Text.toBytes text) →
      src'.read (handle p) = .ok (Text.toBytes text') →
      (∀ h, h ≠ handle p → src'.read h = src.read h) →
      LoadsAlike p { c with source := src } { c with source := src' } := by
  have hread := Manifest.ofBytes_of_text htext
  have hread' := Manifest.ofBytes_of_text htext'
  rw [← Manifest.ofMembers_eq_of_perm hsame] at hread'
  refine ⟨⟨Manifest.ofMembers ms, hread, hread', Manifest.lists_ofMembers ms⟩,
    ?_⟩
  intro p c src src' hkind hsrc hsrc' hothers
  have htwins :=
    twins_of_texts hkind hsrc hsrc' hothers (hread'.trans hread.symm)
  exact loadsAlike_of_twins htwins p

/-- One text has its units twice, the other has the latter ones in front of the
settings. -/
theorem members_in_any_order_of_repeat :
    let ms := [("unit", ["old"]), ("config", ["global"]), ("unit", ["b", "a"])]
    let ms' := [("unit", ["b", "a"]), ("config", ["global"])]
    let text := String.ofList (print ms)
    let text' := String.ofList (print ms')
    let p := Id.ofName "main"
    let kinds := Table.empty.put Kind.packageType Kind.package
    (∃ m, Manifest.ofBytes (Text.toBytes text) = .ok m ∧
      Manifest.ofBytes (Text.toBytes text') = .ok m ∧ m.Lists ms') ∧
    LoadsAlike p { kinds, source := soleText p text }
      { kinds, source := soleText p text' } := by
  intro ms ms' text text' p kinds
  have hsame : (Sorted.lastOnly ms).Perm (Sorted.lastOnly ms') := by decide
  obtain ⟨⟨m, hread, hread', hlists⟩, hloads⟩ :=
    members_in_any_order (packageText_print ms) (packageText_print ms') hsame
  obtain ⟨sorted, hperm, hrest⟩ := hlists
  refine ⟨⟨m, hread, hread', sorted, hperm.trans (by decide), hrest⟩, ?_⟩
  refine hloads p { kinds } _ _ (Table.get?_put_self _ _ _)
      (read_soleText p text)
    (read_soleText p text') fun h hh => ?_
  rw [read_soleText_of_ne hh, read_soleText_of_ne hh]

end ResourceHost.Package
