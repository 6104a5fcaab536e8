import PaneCompletion.Proofs.Browse.Alike
import PaneCompletion.Proofs.Table

/-!
# Requests seen from another working directory

The working directory is where relative paths begin that nothing else gives a beginning to. Every
path that a request leads to is joined to one of the directories of its context, so where these are
rooted nothing is looked up from the working directory: two worlds that differ in it alone answer
every request alike, candidate by candidate (`independent_of_working_directory`).

Drives are the exception. On Windows a path with a drive in front is taken for absolute whether or
not a slash follows, and the system looks up one without a slash from the working directory
(`not_independent_of_working_directory`).

1. rooted paths;
2. worlds seen from another directory;
3. vocabularies;
4. fragments;
5. programs;
6. requests.
-/

namespace PaneCompletion

/-! ## Rooted paths -/

namespace Path

/-- A path that begins at the root. -/
abbrev Rooted (path : Text) : Prop := Text.startsWith path ['/'] = true

variable {path : Text}

theorem Rooted.exists_cons (h : Rooted path) : ∃ rest, path = '/' :: rest :=
  Text.exists_cons_of_startsWith h

theorem Rooted.nonEmpty?_eq (h : Rooted path) : nonEmpty? (some path) = some path := by
  obtain ⟨rest, rfl⟩ := h.exists_cons
  rfl

theorem Rooted.joined (h : Rooted path) (name : Text) : Rooted (joined path name) := by
  obtain ⟨rest, rfl⟩ := h.exists_cons
  unfold Path.joined
  split_ifs with hname
  · exact hname
  · rfl
  · rfl

theorem Rooted.tidy (h : Rooted path) : Rooted (tidy path) := by
  obtain ⟨rest, rfl⟩ := h.exists_cons
  have hroot : ∃ more, rootOf ('/' :: rest) = '/' :: more := by
    unfold rootOf
    split
    · next hnone => simp at hnone
    · exact ⟨_, rfl⟩
    · exact ⟨_, rfl⟩
  obtain ⟨more, hroot⟩ := hroot
  rw [Path.tidy, hroot]
  rfl

end Path

/-! ## Worlds seen from another directory -/

namespace World

/-- The world with another working directory. -/
def movedTo (world : World) (directory : Text) : World :=
  { world with workingDirectory := directory }

variable {world : World} {directory path : Text}

theorem locate_movedTo (h : Path.Rooted path) :
    (world.movedTo directory).locate path = world.locate path := by
  simp only [locate, origin, movedTo, h, if_true]

theorem alike_movedTo (h : Path.Rooted path) : Alike (world.movedTo directory) world path path where
  list_eq := by
    rw [list, list, locate_movedTo h]
    rfl
  leadsIn_eq name node := by
    rw [Entry.leadsIn, Entry.leadsIn]
    cases node <;> simp only [target, lookup, locate_movedTo (h.joined name)]
  isExecutable_eq name := by
    rw [isExecutable, isExecutable, lookup, lookup, locate_movedTo (h.joined name)]
    rfl

theorem isDirectory_movedTo (h : Path.Rooted path) :
    (world.movedTo directory).isDirectory path = world.isDirectory path := by
  rw [isDirectory, isDirectory, lookup, lookup, locate_movedTo h]

end World

/-! ## Vocabularies -/

section Vocabularies

variable {world : World} {directory path : Text}

theorem ColorScheme.names_movedTo (h : Path.Rooted path) :
    names (world.movedTo directory) path = names world path := by
  have hfile : ∀ entry, isFile (world.movedTo directory) path entry = isFile world path entry := by
    rintro ⟨name, node⟩
    rw [isFile, isFile]
    cases node <;> simp only [World.target, World.lookup, World.locate_movedTo (h.joined name)]
  have hfiles : ∀ entries,
      filesAmong (world.movedTo directory) path entries = filesAmong world path entries := by
    intro entries
    induction entries with
    | nil => rfl
    | cons entry rest ih => rw [filesAmong, filesAmong, hfile, ih]
  rw [names, names, filesIn, filesIn, (World.alike_movedTo h).list_eq]
  cases world.list path <;> simp only [hfiles]

theorem HelpTopic.read_movedTo (h : Path.Rooted path) :
    read (world.movedTo directory) path = read world path := by
  simp only [read, World.read, World.lookup, World.locate_movedTo h.tidy]

/-- The words of a source are not read from a file or directory whose path is not rooted. -/
def Source.Rooted : Source → Prop
  | .colorSchemes place => ∀ path, nonEmpty? place = some path → Path.Rooted path
  | .helpTopics (some file) none => Path.Rooted file
  | _ => True

theorem Source.words_movedTo {source : Source} (h : source.Rooted) (file : Text) :
    source.words (world.movedTo directory) file = source.words world file := by
  cases source with
  | colorSchemes place =>
    rw [words, words]
    cases hplace : nonEmpty? place with
    | none => rfl
    | some path => exact ColorScheme.names_movedTo (h path hplace)
  | helpTopics file known =>
    cases known with
    | some topics => rfl
    | none =>
      cases file with
      | none => rfl
      | some file => simp only [words, HelpTopic.read_movedTo h]
  | _ => rfl

end Vocabularies

namespace Lexicon

/-- The words of no vocabulary are read from a file or directory whose path is not rooted. -/
def Rooted (lexicon : Lexicon) : Prop :=
  ∀ name vocabulary, lexicon.get? name = some vocabulary → vocabulary.source.Rooted

theorem Rooted.enter {lexicon : Lexicon} (h : lexicon.Rooted) {vocabulary : Vocabulary}
    (hsource : vocabulary.source.Rooted) : (lexicon.enter vocabulary).Rooted := by
  intro name found hfound
  rw [Lexicon.enter, Table.get?_put] at hfound
  split at hfound
  · rwa [← Option.some.inj hfound]
  · exact h name found hfound

theorem Rooted.enterAll {lexicon : Lexicon} (h : lexicon.Rooted) {vocabularies : List Vocabulary}
    (hsources : ∀ vocabulary ∈ vocabularies, vocabulary.source.Rooted) :
    (lexicon.enterAll vocabularies).Rooted := by
  induction vocabularies generalizing lexicon with
  | nil => exact h
  | cons vocabulary rest ih =>
    exact ih (h.enter (hsources vocabulary List.mem_cons_self)) fun other hother =>
      hsources other (List.mem_cons_of_mem _ hother)

/-- Settings whose two paths are rooted, or not given, give rise to such a lexicon. -/
theorem rooted_ofSettings {settings : Settings}
    (hcolors : ∀ path, nonEmpty? settings.colorsDirectory = some path → Path.Rooted path)
    (hhelp : ∀ path, nonEmpty? settings.helpTags = some path → Path.Rooted path) :
    (ofSettings settings).Rooted := by
  have hempty : Rooted [] := fun name found hfound => by cases hfound
  have htopics : (Vocabulary.ofHelpTopics (nonEmpty? settings.helpTags) none).source.Rooted := by
    cases hfile : nonEmpty? settings.helpTags with
    | none => trivial
    | some file => exact hhelp file hfile
  have hsources : ∀ vocabulary ∈ Vocabulary.standard settings, vocabulary.source.Rooted := by
    simp only [Vocabulary.standard, Vocabulary.fixed, List.cons_append, List.nil_append,
      List.forall_mem_cons]
    and_intros
    -- of all sources only two have a path
    all_goals first | exact hcolors | exact htopics | trivial | simp
  exact hempty.enterAll hsources

end Lexicon

/-! ## Fragments -/

namespace Browser

variable {browser : Browser} {world : World} {directory fragment : Text} {base : Option Text}

/-- Relative fragments start from a directory that is given, and whose path is rooted. -/
def Anchored (browser : Browser) (base : Option Text) : Prop :=
  ∃ path, (nonEmpty? base).or (nonEmpty? browser.base) = some path ∧ Path.Rooted path

theorem anchored_some {path : Text} (h : Path.Rooted path) : browser.Anchored (some path) :=
  ⟨path, by rw [h.nonEmpty?_eq]; rfl, h⟩

/-- The directory of a fragment is not named by a drive. -/
def Driveless (browser : Browser) (world : World) (fragment : Text) : Prop :=
  world.platform = .windows → Path.hasDrive (browser.split world fragment).1 = false

theorem split_movedTo (browser : Browser) (world : World) (directory fragment : Text) :
    browser.split (world.movedTo directory) fragment = browser.split world fragment := by
  have henvironment : (world.movedTo directory).environment = world.environment := rfl
  simp only [split, World.expandVariables_congr henvironment]
  rfl

theorem directoryOf_movedTo (h : browser.Anchored base) :
    browser.directoryOf (world.movedTo directory) fragment base =
      browser.directoryOf world fragment base := by
  obtain ⟨path, hpath, -⟩ := h
  rw [directoryOf, directoryOf, split_movedTo, resolve, resolve, hpath]
  rfl

theorem rooted_directoryOf (h : browser.Anchored base) (hdrive : browser.Driveless world fragment) :
    Path.Rooted (browser.directoryOf world fragment base) := by
  obtain ⟨path, hpath, hrooted⟩ := h
  rw [directoryOf, resolve, hpath]
  split
  · next habsolute =>
    -- without a drive in front only a slash makes a path absolute
    cases hos : world.platform with
    | posix => simpa [Path.isAbsolute, hos] using habsolute
    | windows =>
      rw [Path.isAbsolute, hdrive hos] at habsolute
      have hslashes : ∀ text : Text, Text.startsWith text ['/', '/'] = true → Path.Rooted text := by
        intro text htext
        obtain ⟨rest, rfl⟩ := List.isPrefixOf_iff_prefix.mp htext
        rfl
      simp only [Bool.false_or, Bool.or_eq_true, Bool.and_eq_true] at habsolute
      exact habsolute.elim (fun h => hslashes _ h.2) id
  · exact hrooted.joined _

/-- From another working directory a fragment is completed as it was. -/
theorem complete_movedTo (h : browser.Anchored base) (hdrive : browser.Driveless world fragment)
    (filter : EntryFilter) :
    browser.complete (world.movedTo directory) fragment filter base =
      browser.complete world fragment filter base := by
  cases htilde : isTildeWord fragment with
  | true =>
    rw [complete_of_tildeWord htilde, complete_of_tildeWord htilde]
    rfl
  | false =>
    refine complete_alike htilde htilde (by rw [split_movedTo]) ?_ filter
    rw [directoryOf_movedTo h]
    exact World.alike_movedTo (rooted_directoryOf h hdrive)

end Browser

/-! ## Programs -/

namespace Program

variable {world : World} {directory typed : Text} {browser : Browser}

theorem completeEach_movedTo {directories : List Text}
    (h : ∀ path ∈ directories, Path.Rooted path) (hdrive : browser.Driveless world typed) :
    completeEach (world.movedTo directory) browser typed directories =
      completeEach world browser typed directories := by
  induction directories with
  | nil => rfl
  | cons path rest ih =>
    have hpath := h path List.mem_cons_self
    have hrest := ih fun other hother => h other (List.mem_cons_of_mem _ hother)
    rw [completeEach, completeEach, World.isDirectory_movedTo hpath,
      Browser.complete_movedTo (Browser.anchored_some hpath) hdrive, hrest]

theorem misfit?_movedTo {list : SearchList} (h : ∀ path ∈ list.directories, Path.Rooted path)
    (settings : Settings) :
    misfit? (world.movedTo directory) settings (some list) typed =
      misfit? world settings (some list) typed := by
  have hany : list.directories.any (world.movedTo directory).isDirectory =
      list.directories.any world.isDirectory := by
    rw [Bool.eq_iff_iff, List.any_eq_true, List.any_eq_true]
    exact exists_congr fun path => and_congr_right fun hmem => by
      rw [World.isDirectory_movedTo (h path hmem)]
  have hhome : settings.homeMisfit? (world.movedTo directory) typed =
      settings.homeMisfit? world typed := rfl
  simp only [misfit?, SearchList.orEnvironment?, hany, hhome]

end Program

/-! ## Requests -/

/-- A task whose directory, if it has one, is rooted. -/
def Task.Rooted : Task → Prop
  | .path _ _ (some directory) => Path.Rooted directory
  | _ => True

/-- The text that a task looks for in directories. -/
def Task.fragment? : Task → Option Text
  | .path fragment _ _ => some fragment
  | .program typed => some typed
  | _ => none

/-- All directories and files of a context are rooted. The current directory and the list of the
directories to search are given. -/
structure Context.Rooted (context : Context) : Prop where
  lexicon : context.lexicon.Rooted
  current : ∃ path, context.currentDirectory = some path ∧ Path.Rooted path
  other : ∀ path, nonEmpty? context.otherDirectory = some path → Path.Rooted path
  search : ∃ list, context.searchList = some list ∧ ∀ path ∈ list.directories, Path.Rooted path

namespace Context

variable {context : Context} {world : World} {directory : Text}

theorem Rooted.pathTask (h : context.Rooted) (request : Request) (fragment : Text) :
    (context.pathTask request fragment).Rooted := by
  obtain ⟨current, hcurrent, hrooted⟩ := h.current
  have hother : Task.Rooted (.path fragment .all
      ((nonEmpty? context.otherDirectory).or context.currentDirectory)) := by
    cases hplace : nonEmpty? context.otherDirectory with
    | none => rwa [hcurrent]
    | some path => exact h.other path hplace
  cases hcommand : request.command <;> simp only [Context.pathTask, hcommand]
  case copy | move | alink | rlink => exact hother
  case split | vsplit => rwa [hcurrent]
  case colorscheme => split <;> trivial
  case find => split <;> trivial
  case shell => split_ifs <;> trivial
  all_goals trivial

theorem Rooted.target (h : context.Rooted) (request : Request) :
    (context.target request).task.Rooted := by
  have hwords : ∀ task : Task, task.ofWords = true → task.Rooted := by
    intro task htask
    cases task with
    | path fragment filter directory => cases htask
    | _ => trivial
  unfold Context.target
  split
  · exact hwords _ (ofWords_targetByRule ..)
  · unfold pathTarget
    split
    · trivial
    · exact h.pathTask _ _

/-- From another working directory a task is performed as it was. -/
theorem Rooted.perform_movedTo (h : context.Rooted) {task : Task} (htask : task.Rooted)
    (hdrive : ∀ fragment, task.fragment? = some fragment →
      context.browser.Driveless world fragment) :
    context.perform (world.movedTo directory) task = context.perform world task := by
  obtain ⟨current, hcurrent, hrooted⟩ := h.current
  have hanchored : context.browser.Anchored none :=
    ⟨current, by rw [← hrooted.nonEmpty?_eq, ← hcurrent]; rfl, hrooted⟩
  cases task with
  | nothing => rfl
  | word vocabulary typed file ending =>
    have hwords : context.matchingWords (world.movedTo directory) vocabulary typed file =
        context.matchingWords world vocabulary typed file := by
      rw [matchingWords, matchingWords]
      cases hfound : context.lexicon.get? vocabulary with
      | none => rfl
      | some found =>
        simp only [Vocabulary.matchingWords, Vocabulary.words,
          Source.words_movedTo (h.lexicon vocabulary found hfound)]
    rw [perform, perform, hwords]
  | option typed =>
    have hwords : context.optionWords (world.movedTo directory) = context.optionWords world := by
      rw [optionWords, optionWords]
      cases hfound : context.lexicon.get? "options".toList with
      | none => rfl
      | some found =>
        simp only [Vocabulary.words, Source.words_movedTo (h.lexicon _ found hfound)]
    rw [perform, perform, hwords]
  | path fragment filter place =>
    have hfragment := hdrive fragment rfl
    cases place with
    | none => exact Browser.complete_movedTo hanchored hfragment filter
    | some place =>
      have hinside : context.browser.Anchored (Browser.baseInside world place fragment) := by
        rw [Browser.baseInside]
        -- a fragment that begins by itself is left to the current directory
        split
        · exact hanchored
        · exact Browser.anchored_some htask
      exact Browser.complete_movedTo hinside hfragment filter
  | program typed =>
    obtain ⟨list, hlist, hdirectories⟩ := h.search
    have hfragment : Browser.Driveless { settings := context.settings } world typed :=
      hdrive typed rfl
    rw [perform, perform, hlist, Program.complete, Program.complete]
    exact congrArg (· >>= fun _ => Filling.setEcho ⟨typed, .path⟩)
      (Program.completeEach_movedTo hdirectories hfragment)

theorem Rooted.misfit?_movedTo (h : context.Rooted) (task : Task) :
    context.misfit? (world.movedTo directory) task = context.misfit? world task := by
  obtain ⟨list, hlist, hdirectories⟩ := h.search
  cases task with
  | program typed =>
    rw [misfit?, misfit?, hlist]
    exact Program.misfit?_movedTo hdirectories _
  | _ => rfl

theorem Rooted.complete?_movedTo (h : context.Rooted) {request : Request}
    (hdrive : ∀ fragment, (context.target request).task.fragment? = some fragment →
      context.browser.Driveless world fragment) :
    context.complete? (world.movedTo directory) request = context.complete? world request := by
  simp only [complete?, perform?, h.misfit?_movedTo, h.perform_movedTo (h.target request) hdrive]

end Context

/-- Where the directories and files of a context are rooted, no request asks where the working
directory is: from any two of them it comes to the same answer and the same matches. On Windows this
is so unless a drive is named in front of the last slash. -/
theorem independent_of_working_directory {context : Context} (h : context.Rooted) (world : World)
    (directory : Text) (request : Request)
    (hdrive : world.platform = .windows → ∀ fragment,
      (context.target request).task.fragment? = some fragment →
        Path.hasDrive (context.browser.split world fragment).1 = false) (ignoreCase : Bool) :
    ∃ outcome matched,
      (context.complete? world request).run { ignoreCase } = .ok outcome matched ∧
      (context.complete? (world.movedTo directory) request).run { ignoreCase } =
        .ok outcome matched ∧
      (context.settings.misfits.Fit → context.Answerable world (context.target request).task →
        outcome = .ok (context.target request).start) := by
  have hfresh : ({ ignoreCase } : Matches).echo = none := rfl
  have hsame : context.complete? (world.movedTo directory) request =
      context.complete? world request :=
    h.complete?_movedTo fun fragment hfragment hos => hdrive hos fragment hfragment
  obtain ⟨matched, hrun⟩ := context.complete?_run world request hfresh
  refine ⟨_, matched, hrun, by rw [hsame]; exact hrun, fun hfit hanswerable => ?_⟩
  obtain ⟨list, hlist, -⟩ := h.search
  have hsearch : SearchList.Known world context.searchList := .inl (by rw [hlist]; rfl)
  rw [Context.misfit?_eq_none hfit hanswerable fun _ _ => hsearch]

theorem independent_of_working_directory_panes :
    let settings : Settings := { colorsDirectory := some "/c".toList }
    let context : Context :=
      { lexicon := .ofSettings settings, settings, currentDirectory := some "/p".toList
        otherDirectory := some "/q".toList, searchList := some ⟨["/b".toList]⟩ }
    let world : World :=
      { disk := (({} : Disk).put "/q/sub/foo".toList (.file [] false)).put "/sub/fa".toList
          (.file [] false) }
    let request := (parseLine "copy sub/f".toList).2
    let matched : Matches :=
      { groups := [[⟨"foo".toList, .path⟩]], echo := some ⟨"f".toList, .path⟩ }
    (context.complete? world request).run {} = .ok (.ok 4) matched ∧
      (context.complete? (world.movedTo "/w".toList) request).run {} = .ok (.ok 4) matched := by
  intro settings context world request matched
  have hcolors : ∀ path, nonEmpty? settings.colorsDirectory = some path → Path.Rooted path := by
    rintro path ⟨⟩
    rfl
  have hother : ∀ path, nonEmpty? context.otherDirectory = some path → Path.Rooted path := by
    rintro path ⟨⟩
    rfl
  have hrooted : context.Rooted :=
    { lexicon := Lexicon.rooted_ofSettings hcolors fun path hpath => by cases hpath
      current := ⟨_, rfl, rfl⟩
      other := hother
      search := ⟨_, rfl, by decide⟩ }
  have hposix : world.platform ≠ .windows := by decide
  obtain ⟨outcome, found, hrun, hmoved, hanswers⟩ := independent_of_working_directory hrooted world
    "/w".toList request (fun hos => absurd hos hposix) false
  have htarget : context.target request = ⟨.path "sub/f".toList .all (some "/q".toList), 4⟩ := rfl
  have hanswerable : context.Answerable world (context.target request).task := by
    rw [htarget]
    exact Settings.expands_of_head (by decide)
  obtain rfl := hanswers ⟨rfl, rfl, rfl, rfl, rfl, rfl, ⟨[], rfl, by simp⟩, ⟨[], rfl, by simp⟩⟩
    hanswerable
  have hcomplete : context.browser.completeIn world "/q".toList "sub/f".toList .all {} =
      .ok () matched := by
    decide +kernel
  have hperform := (Context.complete?_ok hrun).2
  rw [htarget] at hperform hrun hmoved
  obtain rfl := (EStateM.Result.ok.inj (hperform.symm.trans hcomplete)).2
  exact ⟨hrun, hmoved⟩

/-- On Windows a drive in front of a relative path hands it to the system, which begins in the
working directory. -/
theorem not_independent_of_working_directory :
    let context : Context :=
      { lexicon := [], currentDirectory := some "/p".toList, searchList := some ⟨[]⟩ }
    let world : World :=
      { platform := .windows, workingDirectory := "/w".toList
        disk := (({} : Disk).put "/w/C:sub/tool".toList (.file [] false)).put "/p".toList
          (.directory true) }
    let request := (parseLine "edit C:sub/to".toList).2
    context.Rooted ∧
      (context.complete? world request).run {} =
        .ok (.ok 6) { groups := [[⟨"tool".toList, .path⟩]], echo := some ⟨"to".toList, .path⟩ } ∧
      (context.complete? (world.movedTo ['/']) request).run {} =
        .ok (.ok 6) { pending := [⟨"to".toList, .path⟩] } := by
  intro context world request
  have hrooted : context.Rooted :=
    { lexicon := fun name found hfound => by cases hfound
      current := ⟨_, rfl, rfl⟩
      other := fun path hpath => by cases hpath
      search := ⟨_, rfl, by decide⟩ }
  exact ⟨hrooted, by decide +kernel, by decide +kernel⟩

end PaneCompletion
