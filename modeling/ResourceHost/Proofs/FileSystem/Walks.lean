import ResourceHost.FileSystem

/-!
# Files of one folder

A path that leads to a folder, with the name of a file behind it, leads to that
file: there it is read, written and removed, whatever the path looks like.  To
write or to remove a file leaves every folder where it was, so the path still
leads to its folder, and other files of the folder are not touched.
-/

namespace ResourceHost

/-! ### Names behind a path -/

namespace Path

/-- A name that a file in a folder can have. -/
structure IsFileName (name : String) : Prop where
  slash : '/' ∉ name.toList
  moves : staysHere name = false
  not_up : name ≠ up
  short : isName name = true

variable {dir name name' : String}

theorem isAbsolute_iff {path : String} :
    isAbsolute path = true ↔ ∃ rest, path.toList = '/' :: rest := by
  rw [isAbsolute, String.startsWith_string_iff]
  constructor
  · rintro ⟨rest, h⟩
    exact ⟨rest, h.symm⟩
  · rintro ⟨rest, h⟩
    exact ⟨rest, h.symm⟩

theorem isAbsolute_eq_false (hn : '/' ∉ name.toList) :
    isAbsolute name = false := by
  cases hb : isAbsolute name with
  | false => rfl
  | true =>
    obtain ⟨rest, hrest⟩ := isAbsolute_iff.1 hb
    rw [hrest] at hn
    exact absurd List.mem_cons_self hn

/-- A path ends in the name that is behind it, after the same text for every
name. -/
theorem exists_toList_join (dir : String) :
    ∃ front, ∀ name, '/' ∉ name.toList →
      (join dir name).toList = front ++ name.toList := by
  by_cases hempty : dir = ""
  · refine ⟨[], fun name hn => ?_⟩
    rw [join, isAbsolute_eq_false hn, hempty]
    rfl
  · cases hend : dir.endsWith "/" with
    | true =>
      refine ⟨dir.toList, fun name hn => ?_⟩
      simp [join, isAbsolute_eq_false hn, hempty, hend]
    | false =>
      refine ⟨dir.toList ++ ['/'], fun name hn => ?_⟩
      simp [join, isAbsolute_eq_false hn, hempty, hend]

/-- Different names behind one path make different paths. -/
theorem join_inj (hn : '/' ∉ name.toList) (hn' : '/' ∉ name'.toList)
    (h : join dir name = join dir name') : name = name' := by
  obtain ⟨front, hfront⟩ := exists_toList_join dir
  have htexts := congrArg String.toList h
  rw [hfront name hn, hfront name' hn'] at htexts
  exact String.toList_inj.1 (List.append_cancel_left htexts)

/-- No path that a name is behind is empty. -/
theorem join_ne_empty (hn : IsFileName name) : join dir name ≠ "" := by
  intro hempty
  obtain ⟨front, hfront⟩ := exists_toList_join dir
  have htext := hfront name hn.slash
  rw [hempty] at htext
  have hname : name.toList = [] := (List.append_eq_nil_iff.1 htext.symm).2
  have hmoves := hn.moves
  rw [String.toList_eq_nil_iff.1 hname] at hmoves
  cases hmoves

/-- The names that lead a walk on. -/
def steps (names : List String) : List String :=
  names.filter fun name => !staysHere name

/-- A path with a name behind it has the steps of the path, and then that
name. -/
theorem exists_names_join (dir : String) (hn : IsFileName name) :
    ∃ front, names (join dir name) = front ++ [name] ∧
      steps front = steps (names dir) := by
  have hlast : ∀ front : List Char,
      ((front ++ '/' :: name.toList).splitOn '/').map String.ofList =
        (front.splitOn '/').map String.ofList ++ [name] := by
    intro front
    rw [List.splitOn_append_cons_self, List.splitOn_eq_singleton hn.slash,
      List.map_append]
    simp
  by_cases hempty : dir = ""
  · refine ⟨[], ?_, by rw [hempty]; rfl⟩
    have hjoin : join dir name = name := by
      simp [join, isAbsolute_eq_false hn.slash, hempty]
    rw [hjoin, names, List.splitOn_eq_singleton hn.slash]
    simp
  · cases hend : dir.endsWith "/" with
    | true =>
      obtain ⟨front, hfront⟩ : ∃ front, front ++ ['/'] = dir.toList := by
        rw [String.endsWith_eq_endsWith_toSlice,
          String.Slice.endsWith_string_iff, String.copy_toSlice] at hend
        exact hend
      have hjoin : (join dir name).toList = front ++ '/' :: name.toList := by
        simp [join, isAbsolute_eq_false hn.slash, hempty, hend, ← hfront]
      refine ⟨(front.splitOn '/').map String.ofList,
        by rw [names, hjoin, hlast], ?_⟩
      -- The empty name behind the last slash leads nowhere.
      rw [names, ← hfront, List.splitOn_append_cons_self, List.splitOn_nil,
        List.map_append, steps, steps, List.filter_append]
      simp [staysHere]
    | false =>
      have hjoin : (join dir name).toList =
          dir.toList ++ '/' :: name.toList := by
        simp [join, isAbsolute_eq_false hn.slash, hempty, hend]
      exact ⟨names dir, by rw [names, hjoin, hlast]; rfl, rfl⟩

theorem isAbsolute_join (hn : IsFileName name) :
    isAbsolute (join dir name) = isAbsolute dir := by
  by_cases hempty : dir = ""
  · have hjoin : join dir name = name := by
      simp [join, isAbsolute_eq_false hn.slash, hempty]
    rw [hjoin, isAbsolute_eq_false hn.slash, hempty]
    rfl
  · obtain ⟨c, rest, hdir⟩ : ∃ c rest, dir.toList = c :: rest := by
      cases hd : dir.toList with
      | nil => exact absurd (String.toList_eq_nil_iff.1 hd) hempty
      | cons c rest => exact ⟨c, rest, rfl⟩
    have hhead : ∃ rest', (join dir name).toList = c :: rest' := by
      simp only [join, isAbsolute_eq_false hn.slash, hempty, Bool.false_eq_true,
        if_false]
      split <;> simp [hdir]
    obtain ⟨rest', hjoin⟩ := hhead
    rw [Bool.eq_iff_iff, isAbsolute_iff, isAbsolute_iff, hdir, hjoin]
    simp

end Path

/-! ### Folders stay -/

namespace Node

/-- Whatever is a folder stays one. -/
def KeepsFolders (n n' : Node) : Prop :=
  ∀ location es, n.get? location = some (.folder es) →
    ∃ es', n'.get? location = some (.folder es')

variable {n : Node} {location : List String} {name : String}

theorem KeepsFolders.refl (n : Node) : KeepsFolders n n := fun _ es h => ⟨es, h⟩

/-- No folder lies in a file. -/
theorem get?_file_ne_folder (bytes : List UInt8) (location : List String)
    (es : Table String Node) :
    (file bytes).get? location ≠ some (.folder es) := by
  cases location <;> simp [get?, entries, Table.get?_empty]

/-- Folders stay where they stay in the one entry that is replaced. -/
theorem keepsFolders_entry {a : String} {x : Node}
    (h : ∀ inner, n.entries.get? a = some inner → inner.KeepsFolders x) :
    n.KeepsFolders (folder (n.entries.put a x)) := by
  intro l es hl
  cases l with
  | nil => exact ⟨_, rfl⟩
  | cons b l =>
    by_cases hb : b = a
    · subst hb
      cases hn : n.entries.get? b with
      | none => simp [get?, hn] at hl
      | some inner =>
        simp only [get?, entries_folder, Table.get?_put_self, hn] at hl ⊢
        exact h inner hn l es hl
    · simp only [get?, entries_folder, Table.get?_put_of_ne _ hb] at hl ⊢
      exact ⟨es, hl⟩

/-- Folders stay where something is put in place of what is no folder. -/
theorem keepsFolders_put (h : ∀ es, n.get? location ≠ some (.folder es))
    (x : Node) : n.KeepsFolders (n.put location x) := by
  induction location generalizing n with
  | nil =>
    cases n with
    | folder es => exact absurd rfl (h es)
    | file bytes =>
      exact fun l es hl => absurd hl (get?_file_ne_folder bytes l es)
  | cons a rest ih =>
    refine keepsFolders_entry fun inner hn => ?_
    simp only [get?, hn] at h
    simp only [Table.getD, hn, Option.getD_some]
    exact ih h

/-- Folders stay where what is no folder is taken out. -/
theorem keepsFolders_drop
    (h : ∀ es, n.get? (location ++ [name]) ≠ some (.folder es)) :
    n.KeepsFolders (n.drop location name) := by
  induction location generalizing n with
  | nil =>
    intro l es hl
    cases l with
    | nil => exact ⟨_, rfl⟩
    | cons b l =>
      by_cases hb : b = name
      · subst hb
        simp only [List.nil_append, get?] at h hl
        cases hn : n.entries.get? b with
        | none => simp [hn] at hl
        | some inner =>
          simp only [hn] at h hl
          cases inner with
          | folder es => exact absurd rfl (h es)
          | file bytes => exact absurd hl (get?_file_ne_folder bytes l es)
      · simp only [get?, drop, entries_folder,
          Table.get?_drop_of_ne _ hb] at hl ⊢
        exact ⟨es, hl⟩
  | cons a rest ih =>
    cases hn : n.entries.get? a with
    | none =>
      rw [drop, hn]
      exact .refl n
    | some inner =>
      simp only [List.cons_append, get?, hn] at h
      rw [drop, hn]
      refine keepsFolders_entry fun inner' hn' => ?_
      cases hn.symm.trans hn'
      exact ih h

/-- Where something is put, a folder is above it. -/
theorem exists_folder_of_put (n : Node) (location : List String) (name : String)
    (x : Node) :
    ∃ es, (n.put (location ++ [name]) x).get? location = some (.folder es) := by
  induction location generalizing n with
  | nil => exact ⟨_, rfl⟩
  | cons a rest ih =>
    simp only [List.cons_append, get?, put, entries_folder, Table.get?_put_self]
    exact ih _

/-- Taking something out of a folder makes no file of it. -/
theorem get?_drop_ne_file (h : ∀ bytes, n.get? location ≠ some (.file bytes))
    (name : String) :
    ∀ bytes, (n.drop location name).get? location ≠ some (.file bytes) := by
  induction location generalizing n with
  | nil => exact fun bytes => nofun
  | cons a rest ih =>
    cases hn : n.entries.get? a with
    | none =>
      rw [drop, hn]
      exact h
    | some inner =>
      rw [drop, hn]
      simp only [get?, entries_folder, Table.get?_put_self, hn] at h ⊢
      exact ih h

end Node

/-! ### Walks -/

namespace FileSystem

open ResourceHost.Path (staysHere steps IsFileName)

variable {top top' : Node} {dir name : String}
  {here location names : List String}

/-- Only the steps lead a walk on to a last name. -/
theorem walk_steps (top : Node) (here names : List String) (name : String) :
    walk top here (steps names ++ [name]) =
      walk top here (names ++ [name]) := by
  induction names generalizing here with
  | nil => rfl
  | cons a rest ih =>
    cases ha : staysHere a with
    | true =>
      have hsteps : steps (a :: rest) = steps rest := by simp [steps, ha]
      rw [hsteps, ih, List.cons_append, walk, if_pos ha]
    | false =>
      have hsteps : steps (a :: rest) = a :: steps rest := by simp [steps, ha]
      simp only [hsteps, List.cons_append, walk, ha, ih, List.append_eq_nil_iff,
        List.cons_ne_nil, and_false]

theorem makeWay_steps (top : Node) (here names : List String) :
    makeWay top here (steps names) = makeWay top here names := by
  induction names generalizing top here with
  | nil => rfl
  | cons a rest ih =>
    cases ha : staysHere a with
    | true =>
      have hsteps : steps (a :: rest) = steps rest := by simp [steps, ha]
      rw [hsteps, ih, makeWay, if_pos ha]
    | false =>
      have hsteps : steps (a :: rest) = a :: steps rest := by simp [steps, ha]
      simp only [hsteps, makeWay, ha, ih]

/-- A walk along names goes through folders that are there, and ends at a
location. -/
inductive Passes (top : Node) : (here names location : List String) → Prop where
  | done {here : List String} : Passes top here [] here
  | stay {here location rest : List String} {a : String}
      (ha : staysHere a = true) (h : Passes top here rest location) :
      Passes top here (a :: rest) location
  | up {here location rest : List String}
      (h : Passes top (above here) rest location) :
      Passes top here (Path.up :: rest) location
  | down {here location rest : List String} {a : String}
      {es : Table String Node} (ha : staysHere a = false) (hup : a ≠ Path.up)
      (hname : Path.isName a = true)
      (hfolder : top.get? (here ++ [a]) = some (.folder es))
      (h : Passes top (here ++ [a]) rest location) :
      Passes top here (a :: rest) location

/-- A walk that does not end at a file has gone through folders. -/
theorem passes_of_walk (h : walk top here names = .ok location)
    (hend : ∀ bytes, top.get? location ≠ some (.file bytes)) :
    Passes top here names location := by
  induction names generalizing here with
  | nil =>
    cases h
    exact .done
  | cons a rest ih =>
    rw [walk] at h
    split at h
    · rename_i ha
      exact .stay ha (ih h)
    · rename_i ha
      split at h
      · rename_i hup
        subst hup
        exact .up (ih h)
      · rename_i hup
        split at h
        · cases h
        · rename_i hname
          split at h
          · cases h
          · rename_i es hfolder
            exact .down (by simpa using ha) hup (by simpa using hname)
              hfolder (ih h)
          · rename_i bytes hfile
            split at h
            · cases h
              exact absurd hfile (hend bytes)
            · cases h

namespace Passes

/-- The walk goes on from where it has led. -/
theorem walk_append (h : Passes top here names location) (more : List String) :
    walk top here (names ++ more) = walk top location more := by
  induction h with
  | done => rfl
  | stay ha h ih => rw [List.cons_append, walk, if_pos ha, ih]
  | up h ih => rw [List.cons_append, walk, if_neg (by decide), if_pos rfl, ih]
  | down ha hup hname hfolder h ih => simp [walk, ha, hup, hname, hfolder, ih]

/-- No folder has to be made on the way. -/
theorem makeWay (h : Passes top here names location) :
    makeWay top here names = (top, some location) := by
  induction h with
  | done => rfl
  | stay ha h ih => rw [FileSystem.makeWay, if_pos ha, ih]
  | up h ih => rw [FileSystem.makeWay, if_neg (by decide), if_pos rfl, ih]
  | down ha hup hname hfolder h ih =>
    simp [FileSystem.makeWay, ha, hup, hname, hfolder, ih]

/-- While folders stay, the walk leads to the same location. -/
theorem mono (h : Passes top here names location) (hk : top.KeepsFolders top') :
    Passes top' here names location := by
  induction h with
  | done => exact .done
  | stay ha h ih => exact .stay ha ih
  | up h ih => exact .up ih
  | down ha hup hname hfolder h ih =>
    obtain ⟨es', hfolder'⟩ := hk _ _ hfolder
    exact .down ha hup hname hfolder' ih

end Passes

/-! ### Files behind a path -/

/-- A file is written where no folder is. -/
theorem writeAt_eq_put (hn : IsFileName name)
    (hfolder : ∀ es, top.get? (here ++ [name]) ≠ some (.folder es))
    (bytes : List UInt8) :
    writeAt top here name bytes = top.put (here ++ [name]) (.file bytes) := by
  rw [writeAt, if_neg (by simp [hn.moves, hn.not_up, hn.short])]
  split
  · rename_i es hes
    exact absurd hes (hfolder es)
  · rfl

/-- A path leads to a folder.  The root and the folders above the working folder
are there, whether or not anything in them is known. -/
structure Leads (top : Node) (dir : String) (location : List String) :
    Prop where
  passes : Passes top (origin dir) (Path.names dir) location
  folder : ∀ bytes, top.get? location ≠ some (.file bytes)

/-- A path that is found leads to a folder, unless to a file. -/
theorem leads_of_locate (h : locate top dir = .ok location)
    (hend : ∀ bytes, top.get? location ≠ some (.file bytes)) :
    Leads top dir location := by
  unfold locate at h
  split at h
  · cases h
  · split at h
    · cases h
    · exact ⟨passes_of_walk h hend, hend⟩

namespace Leads

/-- The path leads to its folder when a file of it has been written. -/
theorem put (h : Leads top dir location)
    (hfolder : ∀ es, top.get? (location ++ [name]) ≠ some (.folder es))
    {x : Node} : Leads (top.put (location ++ [name]) x) dir location := by
  obtain ⟨es, hes⟩ := Node.exists_folder_of_put top location name x
  refine ⟨h.passes.mono (Node.keepsFolders_put hfolder x),
    fun bytes hbytes => ?_⟩
  rw [hes] at hbytes
  cases hbytes

/-- The path leads to its folder when a file of it has been removed. -/
theorem drop (h : Leads top dir location)
    (hfolder : ∀ es, top.get? (location ++ [name]) ≠ some (.folder es)) :
    Leads (top.drop location name) dir location :=
  ⟨h.passes.mono (Node.keepsFolders_drop hfolder),
    Node.get?_drop_ne_file h.folder name⟩

variable (h : Leads top dir location) (hn : IsFileName name)
  (hw : Path.isWalkable (Path.join dir name) = true)

include h hn

theorem walk_join :
    walk top (origin (Path.join dir name)) (Path.names (Path.join dir name)) =
      walk top location [name] := by
  obtain ⟨front, hnames, hsteps⟩ := Path.exists_names_join dir hn
  rw [hnames, ← walk_steps, hsteps, walk_steps, origin, Path.isAbsolute_join hn]
  exact h.passes.walk_append [name]

theorem makeWay_join :
    FileSystem.makeWay top (origin (Path.join dir name))
      (Path.names (Path.join dir name)).dropLast = (top, some location) := by
  obtain ⟨front, hnames, hsteps⟩ := Path.exists_names_join dir hn
  rw [hnames, List.dropLast_concat, ← makeWay_steps, hsteps, makeWay_steps,
    origin, Path.isAbsolute_join hn]
  exact h.passes.makeWay

include hw

/-- The path of a file leads to the file. -/
theorem locate_join :
    locate top (Path.join dir name) =
      if (top.get? (location ++ [name])).isSome then .ok (location ++ [name])
      else .error .absent := by
  rw [locate, if_neg (Path.join_ne_empty hn), if_neg (by simp [hw]),
    h.walk_join hn]
  simp only [walk, hn.moves, hn.not_up, hn.short, Bool.false_eq_true, if_false,
    Bool.not_true]
  cases top.get? (location ++ [name]) with
  | none => rfl
  | some n => cases n <;> rfl

theorem read_join :
    (FileSystem.tree top).read (Path.join dir name) =
      bytesOf (top.get? (location ++ [name])) := by
  rw [read, h.locate_join hn hw]
  cases hg : top.get? (location ++ [name]) with
  | none => rfl
  | some n => simp [hg]

theorem write_join (bytes : List UInt8) :
    (FileSystem.tree top).write (Path.join dir name) bytes =
      .tree (writeAt top location name bytes) := by
  obtain ⟨front, hnames, -⟩ := Path.exists_names_join dir hn
  have hlast : (Path.names (Path.join dir name)).getLast? = some name := by
    rw [hnames, List.getLast?_concat]
  rw [write, writeIn]
  simp only [hw, h.makeWay_join hn, hlast]
  rfl

theorem remove_join :
    (FileSystem.tree top).remove (Path.join dir name) =
      match top.get? (location ++ [name]) with
      | some (.file _) => .tree (top.drop location name)
      | _ => .tree top := by
  rw [remove, h.locate_join hn hw]
  cases hg : top.get? (location ++ [name]) with
  | none => rfl
  | some n => cases n <;> simp [hg]

end Leads

end FileSystem

end ResourceHost
