import PaneCompletion.Program.SearchList
import PaneCompletion.Proofs.World.Entry

/-!
# Programs of a search list

A look-up asks for each directory of a list whether the path of the name is that of an executable
file (`SearchList.find?`). The same names are read in the directories, if these can be read with a
dot behind their paths, as completing a name reads them (`SearchList.Readable`), and all of them
have a name (`SearchList.has_iff`): a path is only found in a directory that is there
(`World.isDirectory_of_locate_joined`), and what is found there is among what is read.

A directory without a name is none to read, but a name behind it is one in the working directory.
Empty texts are kept out of a list before tildes are written out, so a bare tilde can bring one in
(`SearchList.nil_mem_ofList_iff`).

1. the directories of a list;
2. programs that a list has.
-/

namespace PaneCompletion

/-! ## The directories of a list -/

namespace SearchList

variable {world : World} {list : SearchList}

theorem mem_add {directory path : Text} :
    path ∈ (add world list directory).directories ↔ path ∈ list.directories ∨
      directory ≠ [] ∧ path = world.expandTilde world.homeDirectory directory := by
  rw [add]
  split
  · next hempty => simp [List.isEmpty_iff.mp hempty]
  · next hempty =>
    have hne : directory ≠ [] := by simpa using hempty
    dsimp only
    split
    · next hthere =>
      have hmem := List.contains_iff_mem.mp hthere
      exact ⟨.inl, fun h => h.elim id fun hnew => hnew.2 ▸ hmem⟩
    · simp [hne]

/-- The directories of a list are those it was made of, with tildes written out. -/
theorem mem_ofList {directories : List Text} {path : Text} :
    path ∈ (ofList world directories).directories ↔ ∃ directory ∈ directories,
      directory ≠ [] ∧ path = world.expandTilde world.homeDirectory directory := by
  have hfold : ∀ start : SearchList, path ∈ (directories.foldl (add world) start).directories ↔
      path ∈ start.directories ∨ ∃ directory ∈ directories,
        directory ≠ [] ∧ path = world.expandTilde world.homeDirectory directory := by
    induction directories with
    | nil => simp
    | cons directory rest ih =>
      intro start
      rw [List.foldl_cons, ih, mem_add, List.exists_mem_cons_iff, or_assoc]
  rw [ofList, hfold]
  exact or_iff_right (by simp)

/-- Only a bare tilde brings in a directory without a name. -/
theorem nil_mem_ofList_iff {directories : List Text} :
    [] ∈ (ofList world directories).directories ↔
      ['~'] ∈ directories ∧ world.homeDirectory = [] := by
  have hnil : ∀ directory : Text, directory ≠ [] →
      ([] = world.expandTilde world.homeDirectory directory ↔
        directory = ['~'] ∧ world.homeDirectory = []) := by
    intro directory hne
    unfold World.expandTilde
    split
    · exact ⟨fun h => ⟨rfl, h.symm⟩, fun h => h.2.symm⟩
    · simp
    · next named hword _ =>
      have hbare : '~' :: named ≠ ['~'] := fun h => hword (List.cons.inj h).2
      cases world.account? (named.takeWhile (· ≠ '/')) <;> simp [hbare]
    · next hplain =>
      have hbare : directory ≠ ['~'] := hplain []
      simp [hne.symm, hbare]
  rw [mem_ofList]
  constructor
  · rintro ⟨directory, hmem, hne, hpath⟩
    obtain ⟨rfl, hhome⟩ := (hnil directory hne).mp hpath
    exact ⟨hmem, hhome⟩
  · rintro ⟨hmem, hhome⟩
    exact ⟨_, hmem, by simp, (hnil _ (by simp)).mpr ⟨rfl, hhome⟩⟩

theorem add?_eq_ok {more : SearchList} {directory : Text}
    (h : add? world list directory = .ok more) : add world list directory = more := by
  rw [add?] at h
  split at h
  · cases h
  · exact Except.ok.inj h

theorem ofList?_ok {directories : List Text} (h : ofList? world directories = .ok list) :
    ofList world directories = list := by
  rw [ofList?] at h
  rw [ofList]
  generalize ({} : SearchList) = start at h ⊢
  induction directories generalizing start with
  | nil => exact Except.ok.inj h
  | cons directory rest ih =>
    rw [List.foldlM_cons] at h
    cases hadd : add? world start directory with
    | error error =>
      rw [hadd] at h
      cases h
    | ok more =>
      rw [hadd] at h
      rw [List.foldl_cons, add?_eq_ok hadd]
      exact ih more h

/-- A list that can be told is the one in force. -/
theorem orEnvironment?_ok {given : Option SearchList} (h : orEnvironment? world given = .ok list) :
    orEnvironment world given = list := by
  cases given with
  | none => exact ofList?_ok h
  | some given => exact Except.ok.inj h

/-! ## Programs that a list has -/

/-- A name of an executable file, read in a directory of the list. -/
def Has (world : World) (list : SearchList) (name : Text) : Prop :=
  ∃ directory ∈ list.directories, ∃ children, world.list directory = .ok children ∧
    name ∈ children.map (·.1) ∧ world.isExecutable (Path.joined directory name) = true

/-- Every directory of the list that is there can be read with a dot behind its path. -/
def Readable (world : World) (list : SearchList) : Prop :=
  ∀ directory ∈ list.directories, world.isDirectory directory = true →
    ∃ children, world.list (Path.joined directory ['.']) = .ok children

instance (world : World) (list : SearchList) : Decidable (list.Readable world) :=
  decidable_of_iff (∀ directory ∈ list.directories, world.isDirectory directory = true →
      (world.list (Path.joined directory ['.'])).isOk = true) <| by
    have hok : ∀ path, (world.list path).isOk = true ↔
        ∃ children, world.list path = .ok children := by
      intro path
      cases world.list path <;> simp [Except.isOk, Except.toBool]
    simp only [Readable, hok]

/-- So it can be read, and names can be looked up in it. -/
theorem Readable.exists_list (h : list.Readable world) {directory : Text}
    (hmem : directory ∈ list.directories) (hdirectory : world.isDirectory directory = true) :
    ∃ children, world.list directory = .ok children ∧ world.isSearchable directory = true := by
  obtain ⟨children, hlist⟩ := h directory hmem hdirectory
  have hne := World.ne_nil_of_isDirectory hdirectory
  exact ⟨children, (World.list_joined_dot_iff hne (.inl rfl)).mp hlist⟩

/-- A name without a slash is looked for behind each directory. -/
theorem find?_of_no_slash (hposix : world.platform = .posix) {name : Text} (hname : '/' ∉ name) :
    list.find? world name =
      (list.directories.map (Path.joined · name)).find? world.isExecutable := by
  have hseparator : Path.hasSeparator world.platform name = false := by
    rw [hposix]
    simpa [Path.hasSeparator] using hname
  rw [find?, hseparator, if_neg Bool.false_ne_true]

/-- A name without a slash is found where its path in some directory is that of a program. -/
theorem isSome_find?_iff (hposix : world.platform = .posix) {name : Text} (hname : '/' ∉ name) :
    (list.find? world name).isSome ↔
      ∃ directory ∈ list.directories, world.isExecutable (Path.joined directory name) = true := by
  rw [find?_of_no_slash hposix hname, List.find?_isSome]
  simp

end SearchList

/-- What a look-up finds is what the list has. -/
theorem SearchList.has_iff {world : World} {list : SearchList} (hposix : world.platform = .posix)
    (hdisk : world.disk.Proper) (hreadable : list.Readable world)
    (hnamed : [] ∉ list.directories) {name : Text} :
    list.Has world name ↔ '/' ∉ name ∧ (list.find? world name).isSome := by
  constructor
  · rintro ⟨directory, hdirectory, children, hlist, hname, hexecutable⟩
    have hslash := (World.isName_of_mem hdisk hlist hname).no_slash
    exact ⟨hslash, (isSome_find?_iff hposix hslash).mpr ⟨directory, hdirectory, hexecutable⟩⟩
  · rintro ⟨hslash, hfound⟩
    obtain ⟨directory, hdirectory, hexecutable⟩ := (isSome_find?_iff hposix hslash).mp hfound
    have hfile := World.isFile_of_isExecutable hexecutable
    obtain ⟨found, hlocate, -⟩ := World.exists_locate_of_isFile hfile
    have hne : directory ≠ [] := fun hnil => hnamed (hnil ▸ hdirectory)
    obtain ⟨children, hlist, hsearch⟩ := hreadable.exists_list hdirectory
      (World.isDirectory_of_locate_joined hne hslash hlocate)
    exact ⟨directory, hdirectory, children, hlist,
      World.mem_of_isFile hlist hsearch hslash hfile, hexecutable⟩

end PaneCompletion
