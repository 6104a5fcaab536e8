import PaneCompletion.Program.Name
import PaneCompletion.Proofs.Browse.Inside
import PaneCompletion.Proofs.Program.SearchList

/-!
# Names on offer in a search list

Completing a name reads the directories of a search list one after the other and takes from each the
programs that begin with what is typed (`Program.exists_complete`). Where the directories can be
read with a dot behind their paths these are the programs that the list has
(`Program.mem_texts_offered_iff`), and so those that a look-up finds, as long as all of the
directories have a name (`Program.offers_iff`). One without a name is passed over, though a look-up
finds programs of the working directory in it (`Program.not_offers_found_name`).

1. directories one after the other;
2. names on offer and names that are found.
-/

namespace PaneCompletion

/-! ## Directories one after the other -/

namespace Program

variable {world : World} {browser : Browser} {typed : Text}

/-- What each of some directories offers for a typed text. -/
def offered (world : World) (browser : Browser) (typed : Text) (directories : List Text) :
    List Candidate :=
  (directories.filter world.isDirectory).flatMap fun directory =>
    browser.offered world typed .executables (some directory)

theorem kind_of_mem_offered {directories : List Text} {candidate : Candidate}
    (h : candidate ∈ offered world browser typed directories) : candidate.kind = .path := by
  obtain ⟨directory, -, hmem⟩ := List.mem_flatMap.mp h
  exact Browser.kind_of_mem_offered hmem

theorem adds_completeEach (world : World) (browser : Browser) (typed : Text)
    (directories : List Text) :
    Filling.Adds (completeEach world browser typed directories)
      (offered world browser typed directories) := by
  induction directories with
  | nil => exact Filling.adds_nothing
  | cons directory rest ih =>
    rw [completeEach, offered]
    cases hdirectory : world.isDirectory directory with
    | true =>
      rw [List.filter_cons_of_pos hdirectory, List.flatMap_cons]
      exact (browser.adds_complete world typed .executables (some directory)).bind ih
    | false =>
      rw [List.filter_cons_of_neg (by simp [hdirectory])]
      exact Filling.adds_nothing.bind ih

/-- Completing a name is never refused on fresh matches. It adds what each directory offers, and the
echo is the typed text. -/
theorem exists_complete (world : World) (settings : Settings) (given : Option SearchList)
    (typed : Text) (ignoreCase : Bool) :
    ∃ matched, complete world settings given typed { ignoreCase } = .ok () matched ∧
      matched.echo = some ⟨typed, .path⟩ ∧
      ({ ignoreCase } : Matches).Grown
        (offered world { settings } typed (SearchList.orEnvironment world given).directories)
        matched := by
  obtain ⟨_, matched, hrun, hecho⟩ := allowed_complete world settings given typed { ignoreCase } rfl
  have hadds := (adds_completeEach world { settings } typed
    (SearchList.orEnvironment world given).directories).bind_nothing
      (Filling.adds_setEcho ⟨typed, .path⟩)
  exact ⟨matched, hrun, hecho, hadds _ _ _ hrun⟩

theorem mem_texts_offered {directories : List Text} {text : Text} :
    text ∈ (offered world browser typed directories).map (·.text) ↔
      ∃ directory ∈ directories, world.isDirectory directory = true ∧
        text ∈ (browser.offered world typed .executables (some directory)).map (·.text) := by
  simp only [offered, List.map_flatMap, List.mem_flatMap, List.mem_filter, and_assoc]

/-! ## Names on offer and names that are found -/

/-- A program of a list that begins with a typed text; one whose name begins with a dot only if
something is typed. -/
structure Offers (world : World) (list : SearchList) (ignoreCase : Bool) (typed name : Text) :
    Prop where
  has : list.Has world name
  begins : Entry.Begins ignoreCase typed name
  shown : typed = [] → name.head? ≠ some '.'

/-- Executable files that a directory has on offer are names that are read in it. -/
theorem onOffer_iff {directory : Text} {children : List (Text × Node)} {ignoreCase : Bool}
    (hlist : world.list directory = .ok children) {name : Text} :
    Entry.OnOffer world ignoreCase directory typed .executables children name ↔
      (name ∈ children.map (·.1) ∧ world.isExecutable (Path.joined directory name) = true) ∧
        Entry.Begins ignoreCase typed name ∧ (typed = [] → name.head? ≠ some '.') := by
  constructor
  · rintro ⟨hthere, hbegins, hshown, hexecutable⟩
    have hfile := World.not_isDirectory_of_isExecutable hexecutable
    have hdots : ¬(name = ['.'] ∨ name = ['.', '.']) := by
      intro hname
      have hplain : '/' ∉ name ∧ name ≠ [] := by obtain rfl | rfl := hname <;> decide
      have hsearch :=
        World.isSearchable_of_isExecutable_joined hlist hplain.1 hplain.2 hexecutable
      rw [World.isDirectory_dots hlist hsearch hname] at hfile
      cases hfile
    simp only [List.mem_cons] at hthere
    exact ⟨⟨by tauto, hexecutable⟩, hbegins, hshown⟩
  · rintro ⟨⟨hname, hexecutable⟩, hbegins, hshown⟩
    exact ⟨List.mem_cons_of_mem _ (List.mem_cons_of_mem _ hname), hbegins, hshown, hexecutable⟩

/-- Where all directories that are there can be read as completing a name reads them, the programs
of the list are offered. -/
theorem mem_texts_offered_iff {list : SearchList} (hdisk : world.disk.Proper)
    (hreadable : list.Readable world) (hstays : browser.Stays world typed)
    (hword : Browser.isTildeWord typed = false) {text : Text} :
    text ∈ (offered world browser typed list.directories).map (·.text) ↔
      Offers world list browser.settings.ignoreCase typed text := by
  rw [mem_texts_offered]
  constructor
  · rintro ⟨directory, hmem, hdirectory, htext⟩
    obtain ⟨children, hseen⟩ := hreadable directory hmem hdirectory
    have hne := World.ne_nil_of_isDirectory hdirectory
    have hlist := ((World.list_joined_dot_iff hne (.inl rfl)).mp hseen).1
    rw [hstays.mem_texts_offered hdisk hword hseen hne, onOffer_iff hlist] at htext
    obtain ⟨⟨hname, hexecutable⟩, hbegins, hshown⟩ := htext
    exact ⟨⟨directory, hmem, children, hlist, hname, hexecutable⟩, hbegins, hshown⟩
  · rintro ⟨⟨directory, hmem, children, hlist, hname, hexecutable⟩, hbegins, hshown⟩
    have hdirectory := World.isDirectory_of_list hlist
    have hne := World.ne_nil_of_isDirectory hdirectory
    obtain ⟨seen, hseen⟩ := hreadable directory hmem hdirectory
    obtain ⟨hsame, -⟩ := (World.list_joined_dot_iff hne (.inl rfl)).mp hseen
    obtain rfl := Except.ok.inj (hlist.symm.trans hsame)
    refine ⟨directory, hmem, hdirectory, ?_⟩
    rw [hstays.mem_texts_offered hdisk hword hseen hne, onOffer_iff hlist]
    exact ⟨⟨hname, hexecutable⟩, hbegins, hshown⟩

/-- They are those that a look-up finds, if no directory of the list is without a name. -/
theorem offers_iff {list : SearchList} (hposix : world.platform = .posix)
    (hdisk : world.disk.Proper) (hreadable : list.Readable world)
    (hnamed : [] ∉ list.directories) {ignoreCase : Bool} {name : Text} :
    Offers world list ignoreCase typed name ↔
      '/' ∉ name ∧ (list.find? world name).isSome ∧ Entry.Begins ignoreCase typed name ∧
        (typed = [] → name.head? ≠ some '.') := by
  have hhas : list.Has world name ↔ '/' ∉ name ∧ (list.find? world name).isSome :=
    SearchList.has_iff hposix hdisk hreadable hnamed
  constructor
  · rintro ⟨hname, hbegins, hshown⟩
    obtain ⟨hslash, hfound⟩ := hhas.mp hname
    exact ⟨hslash, hfound, hbegins, hshown⟩
  · rintro ⟨hslash, hfound, hbegins, hshown⟩
    exact ⟨hhas.mpr ⟨hslash, hfound⟩, hbegins, hshown⟩

/-- Nothing stands in the way of completing a name without a tilde. -/
theorem misfit?_eq_none (settings : Settings) {given : Option SearchList} {list : SearchList}
    (hlist : SearchList.orEnvironment? world given = .ok list) (htilde : typed.head? ≠ some '~') :
    misfit? world settings given typed = none := by
  rw [misfit?, hlist]
  simp only [settings.homeMisfit?_of_head htilde world, ite_self]

/-- The names that are offered for a typed text are those that a look-up finds and that begin with
it, where the directories that are there can be read as completing a name reads them, and none of
them is without a name. -/
theorem complete_offers_found {world : World} {list : SearchList} (settings : Settings)
    (given : Option SearchList) (typed : Text) (hposix : world.platform = .posix)
    (hdisk : world.disk.Proper) (hlist : SearchList.orEnvironment? world given = .ok list)
    (hreadable : list.Readable world) (hnamed : [] ∉ list.directories) (hslash : '/' ∉ typed)
    (hdollar : '$' ∉ typed) (htilde : typed.head? ≠ some '~') :
    misfit? world settings given typed = none ∧
      ∀ ignoreCase, ∃ matched, complete world settings given typed { ignoreCase } =
          .ok () matched ∧
        (∀ name, name ∈ matched.candidates.map (·.text) ↔
          '/' ∉ name ∧ (list.find? world name).isSome ∧
            Entry.Begins settings.ignoreCase typed name ∧
            (typed = [] → name.head? ≠ some '.')) ∧
        matched.echo = some ⟨typed, .path⟩ := by
  have hstays : ({ settings } : Browser).Stays world typed :=
    Browser.stays_of_plain hslash hdollar htilde _ world
  refine ⟨misfit?_eq_none settings hlist htilde, fun ignoreCase => ?_⟩
  obtain ⟨matched, hrun, hecho, hgrown⟩ := exists_complete world settings given typed ignoreCase
  rw [SearchList.orEnvironment?_ok hlist] at hgrown
  refine ⟨matched, hrun, fun name => ?_, hecho⟩
  have hoffered : name ∈ matched.candidates.map (·.text) ↔
      Offers world list settings.ignoreCase typed name := by
    rw [hgrown.mem_texts_iff, mem_texts_offered_iff hdisk hreadable hstays
      (Browser.isTildeWord_of_head htilde)]
    exact or_iff_right (by simp [Matches.candidates])
  rw [hoffered, offers_iff hposix hdisk hreadable hnamed]

theorem complete_offers_found_link :
    let disk := (({} : Disk).put "/b/vi".toList (.file [] true)).put "/c/vim".toList
      (.link "../b/vi".toList)
    let world : World := { disk }
    let list : SearchList := ⟨["/c".toList, "/d".toList, "/b".toList]⟩
    ∃ matched, complete world {} (some list) "vi".toList {} = .ok () matched ∧
      "vim".toList ∈ matched.candidates.map (·.text) := by
  intro disk world list
  have hdisk : world.disk.Proper := (Disk.proper_empty.put (by decide) _).put (by decide) _
  obtain ⟨-, hcomplete⟩ := complete_offers_found {} (some list) "vi".toList rfl hdisk rfl
    (by decide) (by decide) (by decide) (by decide) (by decide)
  obtain ⟨matched, hrun, hoffered, -⟩ := hcomplete false
  exact ⟨matched, hrun, (hoffered _).mpr ⟨by decide, rfl, by decide, by decide⟩⟩

/-- The working directory has a program that a look-up finds behind a tilde's empty directory, and
that is not offered. -/
theorem not_offers_found_name :
    let world : World :=
      { environment := [("HOME".toList, "//.".toList)], workingDirectory := "/w".toList
        disk := ({} : Disk).put "/w/tool".toList (.file [] true) }
    let list := SearchList.ofList world ["~".toList]
    (∀ directory ∈ list.directories, world.isDirectory directory = false) ∧
      list.find? world "tool".toList = some "tool".toList ∧ "to".toList <+: "tool".toList ∧
      ∃ matched, complete world {} (some list) "to".toList {} = .ok () matched ∧
        "tool".toList ∉ matched.candidates.map (·.text) := by
  intro world list
  have hlist : list = ⟨[[]]⟩ := by decide
  rw [hlist]
  exact ⟨by decide, rfl, by decide, _, rfl, by decide⟩

end Program

end PaneCompletion
