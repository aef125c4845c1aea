import ResourceHost.Source
import ResourceHost.Proofs.FileSystem.Walks
import ResourceHost.Proofs.Id.BuildNames

/-!
# Two sources that agree

A folder that is there keeps bytes by handle as a table in memory does.  The
files of two handles are two files, so whatever is stored, removed and read,
both sources answer with the bytes last stored for the very handle, or that
there are none.
-/

namespace ResourceHost

/-! ### The files of handles -/

/-- A character has four bytes at most. -/
theorem utf8ByteSize_ofList_le (cs : List Char) :
    (String.ofList cs).utf8ByteSize ≤ 4 * cs.length := by
  induction cs with
  | nil => exact Nat.le_refl 0
  | cons c rest ih =>
    have hc := Char.utf8Size_le_four c
    rw [String.ofList_cons, String.utf8ByteSize_append,
      String.utf8ByteSize_singleton, List.length_cons]
    omega

namespace Handle

theorem length_buildName (h : Handle) : h.buildName.toList.length = 32 := by
  simp [buildName, buildDigits, Id.length_digits]

theorem utf8ByteSize_buildName_le (h : Handle) :
    h.buildName.utf8ByteSize ≤ 128 := by
  have hsize := utf8ByteSize_ofList_le h.buildName.toList
  rwa [h.length_buildName, String.ofList_toList] at hsize

/-- A build name is a name that a file can have. -/
theorem isFileName_buildName (h : Handle) : Path.IsFileName h.buildName := by
  have hne (name : String) (hname : name.toList.length ≠ 32) : h.buildName ≠
      name := by
    rintro rfl
    exact hname h.length_buildName
  constructor
  · exact not_mem_buildName (by decide) h
  · simp only [Path.staysHere, hne "" (by decide), hne "." (by decide),
      decide_false, Bool.or_false]
  · exact hne _ (by decide)
  · exact decide_eq_true (Nat.le_trans h.utf8ByteSize_buildName_le (by decide))

end Handle

namespace Source

/-- No two handles have one file. -/
theorem pathOf_injective (dir : String) : Function.Injective (pathOf dir) :=
  fun h h' heq =>
  Handle.buildName_injective
    (Path.join_inj h.isFileName_buildName.slash h'.isFileName_buildName.slash
      heq)

end Source

/-- A folder is at a path.  In a plain file system a file needs no folder around
it. -/
def FileSystem.HasFolder (dir : String) : FileSystem → Prop
  | .plain _ => True
  | .tree top => ∃ location, Leads top dir location

namespace Source

/-! ### A folder that mirrors a table -/

/-- The files of a folder are the bytes of a table, each under its handle. -/
inductive Mirrors (dir : String) (data : Table Handle (List UInt8)) :
    FileSystem → Prop where
  | plain {nodes : Table String Node}
      (files : ∀ h, nodes.get? (pathOf dir h) = (data.get? h).map .file) :
      Mirrors dir data (.plain nodes)
  | tree {top : Node} {location : List String}
      (leads : FileSystem.Leads top dir location)
      (walkable : ∀ h, Path.isWalkable (pathOf dir h) = true)
      (files : ∀ h, top.get? (location ++ [h.buildName]) =
        (data.get? h).map .file) : Mirrors dir data (.tree top)

variable {dir : String} {data data' : Table Handle (List UInt8)}
  {fs : FileSystem}

namespace Mirrors

/-- Only what a table holds counts. -/
theorem congr (hm : Mirrors dir data fs) (h : ∀ h, data'.get? h = data.get? h) :
    Mirrors dir data' fs := by
  cases hm with
  | plain files => exact .plain fun h' => by rw [h, files]
  | tree leads walkable files =>
    exact .tree leads walkable fun h' => by rw [h, files]

/-- What the file at a handle's path reads. -/
theorem read_pathOf (hm : Mirrors dir data fs) (h : Handle) :
    fs.read (pathOf dir h) = FileSystem.bytesOf ((data.get? h).map .file) := by
  cases hm with
  | plain files => rw [FileSystem.read, files]
  | tree leads walkable files =>
    rw [pathOf, leads.read_join h.isFileName_buildName (walkable h), files]

theorem read (hm : Mirrors dir data fs) (h : Handle) :
    (directory dir fs).read h = (memory data).read h := by
  simp only [Source.read, hm.read_pathOf h]
  cases data.get? h <;> rfl

/-- Bytes are stored for one handle and no other. -/
theorem put (hm : Mirrors dir data fs) (h : Handle) (bytes : List UInt8) :
    Mirrors dir (data.put h bytes) (fs.write (pathOf dir h) bytes) := by
  cases hm with
  | plain files =>
    refine .plain fun h' => ?_
    by_cases heq : h' = h
    · rw [heq, Table.get?_put_self, Table.get?_put_self]
      rfl
    · rw [Table.get?_put_of_ne _ (fun hp => heq (pathOf_injective dir hp)),
        Table.get?_put_of_ne _ heq, files]
  | @tree top location leads walkable files =>
    have hname := h.isFileName_buildName
    have hfolder : ∀ es,
        top.get? (location ++ [h.buildName]) ≠ some (.folder es) := by
      intro es hes
      rw [files] at hes
      cases hd : data.get? h <;> rw [hd] at hes <;> cases hes
    rw [pathOf, leads.write_join hname (walkable h),
      FileSystem.writeAt_eq_put hname hfolder]
    refine .tree (leads.put hfolder) walkable fun h' => ?_
    by_cases heq : h' = h
    · rw [heq, Node.get?_put_self, Table.get?_put_self]
      rfl
    · rw [Node.get?_put_beside _ _
          (fun hb => heq (Handle.buildName_injective hb)),
        Table.get?_put_of_ne _ heq, files]

/-- To remove what is not there changes nothing. -/
theorem remove_of_none (hm : Mirrors dir data fs) {h : Handle}
    (hd : data.get? h = none) : fs.remove (pathOf dir h) = fs := by
  cases hm with
  | plain files =>
    rw [FileSystem.remove, files, hd]
    rfl
  | tree leads walkable files =>
    rw [pathOf, leads.remove_join h.isFileName_buildName (walkable h),
      files, hd]
    rfl

theorem remove_of_some (hm : Mirrors dir data fs) {h : Handle}
    {bytes : List UInt8} (hd : data.get? h = some bytes) :
    Mirrors dir (data.drop h) (fs.remove (pathOf dir h)) := by
  cases hm with
  | @plain nodes files =>
    have hremove : (FileSystem.plain nodes).remove (pathOf dir h) =
        .plain (nodes.drop (pathOf dir h)) := by
      rw [FileSystem.remove, files, hd]
      rfl
    rw [hremove]
    refine .plain fun h' => ?_
    by_cases heq : h' = h
    · rw [heq, Table.get?_drop_self, Table.get?_drop_self]
      rfl
    · rw [Table.get?_drop_of_ne _ (fun hp => heq (pathOf_injective dir hp)),
        Table.get?_drop_of_ne _ heq, files]
  | @tree top location leads walkable files =>
    have hfile : top.get? (location ++ [h.buildName]) = some (.file bytes) := by
      rw [files, hd]
      rfl
    have hfolder : ∀ es,
        top.get? (location ++ [h.buildName]) ≠ some (.folder es) := by
      intro es hes
      rw [hfile] at hes
      cases hes
    rw [pathOf, leads.remove_join h.isFileName_buildName (walkable h), hfile]
    refine .tree (leads.drop hfolder) walkable fun h' => ?_
    by_cases heq : h' = h
    · rw [heq, Node.get?_drop_self, Table.get?_drop_self]
      rfl
    · rw [Node.get?_drop_beside _ _
          (fun hb => heq (Handle.buildName_injective hb)),
        Table.get?_drop_of_ne _ heq, files]

/-- The bytes of one handle are removed and no other's. -/
theorem remove (hm : Mirrors dir data fs) (h : Handle) :
    Mirrors dir (data.drop h) (fs.remove (pathOf dir h)) := by
  cases hd : data.get? h with
  | some bytes => exact hm.remove_of_some hd
  | none =>
    rw [hm.remove_of_none hd]
    refine hm.congr fun h' => ?_
    by_cases heq : h' = h
    · rw [heq, Table.get?_drop_self, hd]
    · exact Table.get?_drop_of_ne _ heq

end Mirrors

/-- Two sources agree when they read the same for every handle. -/
def Agrees (s s' : Source) : Prop := ∀ h, s.read h = s'.read h

/-- A folder that is there and reads as a table does mirrors it. -/
theorem mirrors_of_agrees (hdir : fs.HasFolder dir)
    (h : (directory dir fs).Agrees (memory data)) : Mirrors dir data fs := by
  have hbytes : ∀ h', fs.read (pathOf dir h') =
      FileSystem.bytesOf ((data.get? h').map .file) := by
    intro h'
    have heq := h h'
    simp only [Source.read] at heq
    cases hd : data.get? h' <;> rw [hd] at heq <;> split at heq <;>
      cases heq <;> assumption
  have hnode : ∀ {n : Option Node} {bytes : Option (List UInt8)},
      FileSystem.bytesOf n = FileSystem.bytesOf (bytes.map .file) →
      n = bytes.map .file := by
    intro n bytes heq
    obtain _ | _ | _ := n <;> obtain _ | _ := bytes <;> cases heq <;> rfl
  cases fs with
  | plain nodes => exact .plain fun h' => hnode (hbytes h')
  | tree top =>
    obtain ⟨location, leads⟩ := hdir
    have walkable : ∀ h', Path.isWalkable (pathOf dir h') = true := by
      refine fun h' => Decidable.byContradiction fun hwalk => ?_
      -- A path that cannot be walked is refused, and a table refuses nothing.
      have hread := hbytes h'
      have hne : pathOf dir h' ≠ "" :=
        Path.join_ne_empty h'.isFileName_buildName
      rw [FileSystem.read, FileSystem.locate, if_neg hne,
        if_pos (by simp [hwalk])] at hread
      cases hd : data.get? h' <;> rw [hd] at hread <;> cases hread
    refine .tree leads walkable fun h' => hnode ?_
    rw [← hbytes, pathOf, leads.read_join h'.isFileName_buildName (walkable h')]

/-! ### Acts -/

/-- What is done with a source. -/
inductive Act where
  | put (h : Handle) (bytes : List UInt8)
  | remove (h : Handle)
  | read (h : Handle)
  deriving DecidableEq, Repr

/-- The source after an act.  To read changes nothing. -/
def act (s : Source) : Act → Source
  | .put h bytes => s.put h bytes
  | .remove h => s.remove h
  | .read _ => s

/-- The source after acts. -/
def after (s : Source) (acts : List Act) : Source := acts.foldl act s

/-- What the reads among acts answer. -/
def answers (s : Source) : List Act → List (Except SourceFailure (List UInt8))
  | [] => []
  | .read h :: rest => s.read h :: s.answers rest
  | a :: rest => (s.act a).answers rest

/-- The bytes that acts leave for a handle: those it was last given, if it has
not lost them since. -/
def lastPut (h : Handle) (start : Option (List UInt8)) (acts : List Act) :
    Option (List UInt8) :=
  acts.foldl (fun held a =>
    match a with
    | .put h' bytes => if h' = h then some bytes else held
    | .remove h' => if h' = h then none else held
    | .read _ => held) start

/-- A table holds for a handle what was last put for that handle. -/
theorem read_after_memory (data : Table Handle (List UInt8)) (acts : List Act)
    (h : Handle) :
    ((memory data).after acts).read h =
      (lastPut h (data.get? h) acts).elim (.error (.noData h)) .ok := by
  induction acts generalizing data with
  | nil =>
    simp only [after, lastPut, List.foldl_nil, Source.read]
    cases data.get? h <;> rfl
  | cons a rest ih =>
    cases a with
    | put h' bytes =>
      refine (ih (data.put h' bytes)).trans ?_
      by_cases heq : h' = h
      · simp [lastPut, heq]
      · simp [lastPut, heq, Table.get?_put_of_ne _ (Ne.symm heq)]
    | remove h' =>
      refine (ih (data.drop h')).trans ?_
      by_cases heq : h' = h
      · simp [lastPut, heq]
      · simp [lastPut, heq, Table.get?_drop_of_ne _ (Ne.symm heq)]
    | read h' => exact ih data

/-- A folder mirrors a table after every act, if it did so before. -/
theorem Mirrors.act (hm : Mirrors dir data fs) (a : Act) :
    ∃ fs' data', (directory dir fs).act a = directory dir fs' ∧
      (memory data).act a = memory data' ∧ Mirrors dir data' fs' := by
  cases a with
  | put h bytes => exact ⟨_, _, rfl, rfl, hm.put h bytes⟩
  | remove h => exact ⟨_, _, rfl, rfl, hm.remove h⟩
  | read h => exact ⟨_, _, rfl, rfl, hm⟩

theorem Mirrors.agrees_after (hm : Mirrors dir data fs) (acts : List Act) :
    ((directory dir fs).after acts).Agrees ((memory data).after acts) := by
  induction acts generalizing data fs with
  | nil => exact hm.read
  | cons a rest ih =>
    obtain ⟨fs', data', hdir, hmem, hm'⟩ := hm.act a
    simp only [after, List.foldl_cons, hdir, hmem]
    exact ih hm'

theorem Mirrors.answers (hm : Mirrors dir data fs) (acts : List Act) :
    (directory dir fs).answers acts = (memory data).answers acts := by
  induction acts generalizing data fs with
  | nil => rfl
  | cons a rest ih =>
    obtain ⟨fs', data', hdir, hmem, hm'⟩ := hm.act a
    cases a with
    | read h => rw [Source.answers, Source.answers, hm.read h, ih hm]
    | put h bytes =>
      rw [Source.answers, Source.answers, hdir, hmem, ih hm']; all_goals nofun
    | remove h =>
      rw [Source.answers, Source.answers, hdir, hmem, ih hm']; all_goals nofun

/-- A folder of a platform that is there answers as a table in memory does, if
it does so at first: whatever is put, removed and read, both give the bytes last
put for the very handle, or the failure that names it.  No two handles have one
file. -/
theorem directory_agrees_with_memory (buildDir platform : String)
    (fs : FileSystem) (data : Table Handle (List UInt8))
    (hdir : fs.HasFolder (directoryOf buildDir platform))
    (hstart : (directory (directoryOf buildDir platform) fs).Agrees
      (memory data)) (acts : List Act) :
    (directory (directoryOf buildDir platform) fs).answers acts =
        (memory data).answers acts ∧
      (∀ h, ((directory (directoryOf buildDir platform) fs).after acts).read h =
          ((memory data).after acts).read h ∧
        ((memory data).after acts).read h =
          (lastPut h (data.get? h) acts).elim (.error (.noData h)) .ok) ∧
      Function.Injective (pathOf (directoryOf buildDir platform)) :=
  have hm := mirrors_of_agrees hdir hstart
  ⟨hm.answers acts,
    fun h => ⟨hm.agrees_after acts h, read_after_memory data acts h⟩,
    pathOf_injective _⟩

/-- The paths of a folder can be walked when its own path is not too long. -/
theorem isWalkable_pathOf (hsize : dir.utf8ByteSize ≤ 3966)
    (hzero : '\x00' ∉ dir.toList) (h : Handle) :
    Path.isWalkable (pathOf dir h) = true := by
  have hname := h.isFileName_buildName
  have hnozero := Handle.not_mem_buildName (c := '\x00') (by decide) h
  have habs := Path.isAbsolute_eq_false hname.slash
  have hshort := h.utf8ByteSize_buildName_le
  have hslash : "/".utf8ByteSize = 1 := by decide
  simp only [Path.isWalkable, Path.maxSize, Bool.and_eq_true, Bool.not_eq_true',
    List.contains_eq_mem, decide_eq_false_iff_not]
  simp only [pathOf, Path.join, habs, Bool.false_eq_true, if_false]
  split
  · exact ⟨decide_eq_true (by omega), hnozero⟩
  · split
    · rw [String.utf8ByteSize_append, String.toList_append, List.mem_append]
      exact ⟨decide_eq_true (by omega), not_or_intro hzero hnozero⟩
    · rw [String.utf8ByteSize_append, String.utf8ByteSize_append, hslash,
        String.toList_append, String.toList_append, List.mem_append,
        List.mem_append]
      exact ⟨decide_eq_true (by omega),
        not_or_intro (not_or_intro hzero (by decide)) hnozero⟩

/-- A working folder with an empty folder in a folder. -/
def emptyBuildFolder : Node := Node.emptyFolder.put ["build", "pc"] .emptyFolder

theorem emptyBuildFolder_leads :
    FileSystem.Leads emptyBuildFolder (directoryOf "build" "pc")
      ["build", "pc"] := by
  have hdir : directoryOf "build" "pc" = "build/pc" := by decide +kernel
  have hnames : Path.names "build/pc" = ["build", "pc"] := by decide +kernel
  have horigin : FileSystem.origin "build/pc" = [] := by decide +kernel
  rw [hdir]
  refine FileSystem.leads_of_locate ?_ nofun
  rw [FileSystem.locate, hnames, horigin, if_neg (by decide),
    if_neg (by decide +kernel)]
  rfl

/-- Two files are put into an empty folder and one is removed: what is read is
what a table answers. -/
theorem directory_agrees_with_memory_of_emptyFolder :
    let mine : Handle := ⟨⟨1⟩, ⟨1⟩⟩
    let other : Handle := ⟨⟨1⟩, ⟨2⟩⟩
    let folder : Source :=
      directory (directoryOf "build" "pc") (.tree emptyBuildFolder)
    let acts : List Act := [.read mine, .put mine [7], .put other [8],
      .read mine, .remove mine, .read mine, .read other]
    (FileSystem.tree emptyBuildFolder).HasFolder (directoryOf "build" "pc") ∧
      folder.Agrees (memory Table.empty) ∧
      folder.answers acts =
        [.error (.noData mine), .ok [7], .error (.noData mine), .ok [8]] ∧
      (folder.after acts).read other = .ok [8] := by
  intro mine other folder acts
  have hdir : (FileSystem.tree emptyBuildFolder).HasFolder
      (directoryOf "build" "pc") := ⟨_, emptyBuildFolder_leads⟩
  have hmirrors : Mirrors (directoryOf "build" "pc") Table.empty
      (.tree emptyBuildFolder) :=
    .tree emptyBuildFolder_leads
      (isWalkable_pathOf (by decide +kernel) (by decide +kernel)) fun h =>
      Node.get?_emptyFolder [] h.buildName
  obtain ⟨hanswers, hreads, -⟩ :=
    directory_agrees_with_memory "build" "pc" _ _ hdir hmirrors.read acts
  refine ⟨hdir, hmirrors.read, ?_, ?_⟩
  · rw [hanswers]
    rfl
  · rw [(hreads other).1]
    rfl

end Source

end ResourceHost
