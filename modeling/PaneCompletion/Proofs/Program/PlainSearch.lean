import PaneCompletion.Proofs.Program.SearchList
import PaneCompletion.Proofs.World.Expansion

/-!
# Search lists and the plain search

A search list is made of the directories that a text names by keeping each where it is named first
(`Keeps`). Whether it is there already is asked once its tilde is written out, so two entries that
are written differently can be the same directory.

The plain search goes through all entries, however often they name a directory. It finds what the
look-up in the list finds: where a directory is named again it has been looked in before
(`Keeps.find?_eq`), and the directories come in the same order. Both have a result unless a tilde
asks for a home directory that is not known, or for that of an account with a NUL in its name.

1. directories as they are named;
2. each directory once;
3. the plain search.
-/

namespace PaneCompletion

/-! ## Directories as they are named -/

/-- The path with a leading tilde written out, if the home directory is known and an account that it
names can be looked for. -/
def World.expandTilde? (world : World) (path : Text) : Except HomeError Text :=
  if Text.startsWith path ['~'] then
    match world.home, world.accountError? path with
    | .error error, _ => .error error
    | .ok _, some error => .error error
    | .ok home, none => .ok (world.expandTilde home path)
  else .ok path

theorem World.exists_expandTilde?_iff {world : World} {path : Text} :
    (∃ expanded, world.expandTilde? path = .ok expanded) ↔ world.Expands path := by
  rw [expandTilde?, Expands]
  cases Text.startsWith path ['~'] <;> cases world.home <;> cases world.accountError? path <;> simp

theorem World.expandTilde?_eq (world : World) (path : Text) :
    world.expandTilde? path =
      match world.tildeError? path with
      | some error => .error error
      | none => .ok (world.expandTilde world.homeDirectory path) := by
  rw [expandTilde?, tildeError?]
  cases htilde : Text.startsWith path ['~'] with
  | false =>
    have hhead : path.head? ≠ some '~' :=
      Text.startsWith_singleton_iff.not.mp (by simp [htilde])
    simp [World.expandTilde_of_head hhead]
  | true =>
    cases hhome : world.home with
    | error error => rfl
    | ok home =>
      rw [homeDirectory_of_home hhome]
      cases world.accountError? path <;> rfl

namespace SearchList

variable {world : World} {list : SearchList} {entries : List Text}

/-- The directories that some texts name, as often as they name them: the empty ones name none, and
tildes are written out. -/
def named? (world : World) (directories : List Text) : Except World.HomeError (List Text) :=
  (directories.filter (· ≠ [])).mapM world.expandTilde?

/-- The list with a directory at its end that it does not have already. -/
def including (list : SearchList) (directory : Text) : SearchList :=
  if list.directories.contains directory then list
  else { directories := list.directories ++ [directory] }

theorem add?_nil (world : World) (list : SearchList) : add? world list [] = .ok list := rfl

theorem add?_of_ne_nil (list : SearchList) {directory : Text} (hne : directory ≠ []) :
    add? world list directory = (world.expandTilde? directory).map list.including := by
  have hadd : add world list directory =
      list.including (world.expandTilde world.homeDirectory directory) := by
    rw [add, if_neg (by simpa using hne)]
    rfl
  rw [add?, World.expandTilde?_eq, hadd]
  cases world.tildeError? directory <;> rfl

theorem named?_nil_cons (world : World) (rest : List Text) :
    named? world ([] :: rest) = named? world rest := rfl

theorem named?_cons {directory : Text} (hne : directory ≠ []) (rest : List Text) :
    named? world (directory :: rest) = (world.expandTilde? directory).bind fun expanded =>
      (named? world rest).map (expanded :: ·) := by
  rw [named?, List.filter_cons_of_pos (by simpa using hne), List.mapM_cons]
  rfl

/-- A list is made of the directories as they are named, one after the other. -/
theorem foldlM_add?_eq (list : SearchList) (directories : List Text) :
    directories.foldlM (add? world) list =
      (named? world directories).map fun entries => entries.foldl including list := by
  induction directories generalizing list with
  | nil => rfl
  | cons directory rest ih =>
    rw [List.foldlM_cons]
    by_cases hne : directory = []
    · rw [hne, add?_nil, named?_nil_cons]
      exact ih list
    · rw [add?_of_ne_nil list hne, named?_cons hne]
      cases hexpand : world.expandTilde? directory with
      | error error => rfl
      | ok expanded =>
        refine (ih (list.including expanded)).trans ?_
        cases named? world rest <;> rfl

theorem ofText?_eq (world : World) (text : Text) :
    ofText? world text = (named? world (Text.pieces ':' text)).map fun entries =>
      entries.foldl including {} :=
  foldlM_add?_eq {} _

/-- All directories are told if the tildes in front of them can be written out. -/
theorem exists_named?_iff {directories : List Text} :
    (∃ entries, named? world directories = .ok entries) ↔
      ∀ directory ∈ directories, world.Expands directory := by
  induction directories with
  | nil => simp [named?, pure, Except.pure]
  | cons directory rest ih =>
    rw [List.forall_mem_cons]
    by_cases hne : directory = []
    · have hnil : world.Expands [] := nofun
      rw [hne, named?_nil_cons, ih]
      exact (and_iff_right hnil).symm
    · rw [named?_cons hne, ← ih, ← World.exists_expandTilde?_iff]
      cases world.expandTilde? directory <;> cases named? world rest <;>
        simp [Except.bind, Except.map]

/-! ## Each directory once -/

/-- A list has the directories that are named, each once, in the order in which they are named
first. -/
structure Keeps (list : SearchList) (entries : List Text) : Prop where
  mem_iff : ∀ directory, directory ∈ list.directories ↔ directory ∈ entries
  ordered : list.directories.Pairwise fun a b => entries.idxOf a < entries.idxOf b

theorem keeps_nil : Keeps {} [] := ⟨fun _ => Iff.rfl, .nil⟩

theorem Keeps.nodup (h : list.Keeps entries) : list.directories.Nodup := by
  refine List.Pairwise.imp ?_ h.ordered
  rintro a _ hlt rfl
  exact Nat.lt_irrefl _ hlt

/-- One directory more is kept where it is new, and behind all others. -/
theorem Keeps.including (h : list.Keeps entries) (directory : Text) :
    (list.including directory).Keeps (entries ++ [directory]) := by
  have hstays : ∀ a ∈ list.directories, (entries ++ [directory]).idxOf a = entries.idxOf a :=
    fun a ha => List.idxOf_append_of_mem ((h.mem_iff a).mp ha)
  have hordered : list.directories.Pairwise fun a b =>
      (entries ++ [directory]).idxOf a < (entries ++ [directory]).idxOf b :=
    h.ordered.imp_of_mem fun ha hb hlt => by rwa [hstays _ ha, hstays _ hb]
  rw [SearchList.including]
  split
  · next hthere =>
    have hmem : directory ∈ entries := (h.mem_iff directory).mp (List.contains_iff_mem.mp hthere)
    refine ⟨fun a => ?_, hordered⟩
    rw [h.mem_iff, List.mem_append, List.mem_singleton]
    exact ⟨.inl, fun ha => ha.elim id fun heq => heq ▸ hmem⟩
  · next hnew =>
    have hnot : directory ∉ entries := fun hmem =>
      hnew (List.contains_iff_mem.mpr ((h.mem_iff directory).mpr hmem))
    refine ⟨fun a => by simp only [List.mem_append, h.mem_iff], ?_⟩
    refine List.pairwise_append.mpr ⟨hordered, List.pairwise_singleton _ _, fun a ha b hb => ?_⟩
    obtain rfl := List.mem_singleton.mp hb
    have hlt := List.idxOf_lt_length_of_mem ((h.mem_iff a).mp ha)
    rw [hstays a ha, List.idxOf_append, if_neg hnot]
    omega

theorem Keeps.foldl_including (h : list.Keeps entries) (more : List Text) :
    (more.foldl SearchList.including list).Keeps (entries ++ more) := by
  induction more generalizing list entries with
  | nil => rwa [List.append_nil]
  | cons directory rest ih =>
    rw [List.foldl_cons, List.append_cons]
    exact ih (h.including directory)

/-- A list that can be made keeps the directories that the text names. -/
theorem keeps_of_ofText? {text : Text} (h : ofText? world text = .ok list) :
    ∃ entries, named? world (Text.pieces ':' text) = .ok entries ∧ list.Keeps entries := by
  rw [ofText?_eq] at h
  cases hnamed : named? world (Text.pieces ':' text) with
  | error error =>
    rw [hnamed] at h
    cases h
  | ok entries =>
    rw [hnamed] at h
    obtain rfl := Except.ok.inj h
    exact ⟨entries, rfl, keeps_nil.foldl_including entries⟩

/-- What holds of some directory is found first where it is named first. -/
theorem Keeps.find?_eq (h : list.Keeps entries) (p : Text → Bool) :
    list.directories.find? p = entries.find? p := by
  cases hfound : entries.find? p with
  | none =>
    rw [List.find?_eq_none] at hfound ⊢
    exact fun a ha => hfound a ((h.mem_iff a).mp ha)
  | some directory =>
    obtain ⟨hholds, before, behind, hentries, hnone⟩ := List.find?_eq_some_iff_append.mp hfound
    have hmem : directory ∈ list.directories := (h.mem_iff directory).mpr (by simp [hentries])
    obtain ⟨front, rest, hlist⟩ := List.append_of_mem hmem
    refine List.find?_eq_some_iff_append.mpr ⟨hholds, front, rest, hlist, fun a ha => hnone a ?_⟩
    -- the list has `a` before the directory found, so the entries name it before, too
    have hlt : entries.idxOf a < entries.idxOf directory := by
      have hordered := h.ordered
      rw [hlist, List.pairwise_append] at hordered
      exact hordered.2.2 a ha directory List.mem_cons_self
    have hle : entries.idxOf directory ≤ before.length := by
      rw [hentries, List.idxOf_append]
      split
      · exact List.idxOf_le_length
      · simp
    by_contra hnot
    rw [hentries, List.idxOf_append, if_neg hnot, ← hentries] at hlt
    omega

/-! ## The plain search -/

/-- The path of a name in the first of some directories where it is that of a program. -/
def plainSearch (world : World) (name : Text) : List Text → Option Text
  | [] => none
  | directory :: more =>
    if world.isExecutable (Path.joined directory name) then some (Path.joined directory name)
    else plainSearch world name more

theorem plainSearch_eq (world : World) (name : Text) (directories : List Text) :
    plainSearch world name directories =
      (directories.map (Path.joined · name)).find? world.isExecutable := by
  induction directories with
  | nil => rfl
  | cons directory more ih =>
    rw [plainSearch, List.map_cons, List.find?_cons, ih]
    cases world.isExecutable (Path.joined directory name) <;> rfl

theorem Keeps.plainSearch_eq (h : list.Keeps entries) (world : World) (name : Text) :
    plainSearch world name list.directories = plainSearch world name entries := by
  rw [SearchList.plainSearch_eq, SearchList.plainSearch_eq, List.find?_map, List.find?_map,
    h.find?_eq]

theorem find?_eq_plainSearch (hposix : world.platform = .posix) {name : Text}
    (hname : '/' ∉ name) : list.find? world name = plainSearch world name list.directories := by
  rw [find?_of_no_slash hposix hname, plainSearch_eq]

/-- The look-up of a name in the list of a text finds what the plain search finds in all directories
that the text names. The list has each of these once, in the order in which they are named first,
none of them empty unless the home directory is. There is a list exactly if the tildes in front of
directories can be written out. -/
theorem lookup_eq_plainSearch (hposix : world.platform = .posix) (text : Text) {name : Text}
    (hname : '/' ∉ name) :
    (ofText? world text).map (·.find? world name) =
        (named? world (Text.pieces ':' text)).map (plainSearch world name) ∧
      (∀ list, ofText? world text = .ok list →
        ∃ entries, named? world (Text.pieces ':' text) = .ok entries ∧ list.Keeps entries ∧
          list.directories.Nodup ∧ (world.homeDirectory ≠ [] → [] ∉ list.directories)) ∧
      ((∃ list, ofText? world text = .ok list) ↔
        ∀ directory ∈ Text.pieces ':' text, world.Expands directory) := by
  refine ⟨?_, fun list hlist => ?_, ?_⟩
  · rw [ofText?_eq]
    cases named? world (Text.pieces ':' text) with
    | error error => rfl
    | ok entries =>
      have hkeeps := keeps_nil.foldl_including entries
      simp only [Except.map, find?_eq_plainSearch hposix hname, hkeeps.plainSearch_eq,
        List.nil_append]
  · obtain ⟨entries, hentries, hkeeps⟩ := keeps_of_ofText? hlist
    refine ⟨entries, hentries, hkeeps, hkeeps.nodup, fun hhome hnil => hhome ?_⟩
    rw [← ofList?_ok hlist] at hnil
    exact (nil_mem_ofList_iff.mp hnil).2
  · rw [← exists_named?_iff, ofText?_eq]
    cases named? world (Text.pieces ':' text) <;> simp [Except.map]

theorem lookup_eq_plainSearch_repeated :
    let disk := (({} : Disk).put "/h/bin/tool".toList (.file [] false)).put "/b/tool".toList
      (.file [] true)
    let world : World := { environment := [("HOME".toList, "/h".toList)], disk }
    let text := "/h/bin::~/bin:/b:/c:~/bin:/b".toList
    let list : SearchList := ⟨["/h/bin".toList, "/b".toList, "/c".toList]⟩
    ofText? world text = .ok list ∧ list.directories.Nodup ∧ [] ∉ list.directories ∧
      list.find? world "tool".toList = some "/b/tool".toList ∧
      (named? world (Text.pieces ':' text)).map (plainSearch world "tool".toList) =
        .ok (some "/b/tool".toList) := by
  intro disk world text list
  have hlist : ofText? world text = .ok list := by decide
  have hfind : list.find? world "tool".toList = some "/b/tool".toList := by decide
  obtain ⟨hlookup, hkept, -⟩ :=
    @lookup_eq_plainSearch world rfl text "tool".toList (by decide)
  obtain ⟨-, -, -, hnodup, hnamed⟩ := hkept list hlist
  refine ⟨hlist, hnodup, hnamed (by decide), hfind, ?_⟩
  rw [← hlookup, hlist, ← hfind]
  rfl

end SearchList

end PaneCompletion
