import PaneCompletion.Proofs.Browse.Walk
import PaneCompletion.Proofs.World.Entry

/-!
# What a directory has on offer

A fragment is completed in the directory that its text up to the last slash names, once tildes and
references are written out (`Browser.Seeks`). What that directory has on offer is said of paths
alone: a name is offered if it is there, begins with what stands behind the slash, does not begin
with a dot where nothing stands there, and if what its path leads to is what the filter asks for
(`Entry.OnOffer`). The walk decides the same entry by entry, from the kinds that are read with the
names (`Entry.mem_texts_candidatesAmong`), if paths lead into the directory at all: one that can be
read but not searched has names whose paths lead nowhere. Completing a fragment without a slash does
not even read such a directory (`Browser.not_complete_exact`).

On fresh matches these names are all the candidates, in order of their keys and each once
(`Browser.complete_exact`). In which order the directory is read does not show, unless case is
ignored: then names that differ in case alone keep that order.

1. what is asked of a name;
2. where a fragment looks;
3. entries by their paths;
4. completing on fresh matches.
-/

namespace PaneCompletion

/-! ## What is asked of a name -/

/-- What a filter asks of a path, links followed. -/
def EntryFilter.Admits (filter : EntryFilter) (world : World) (path : Text) : Prop :=
  match filter with
  | .directories => world.isDirectory path
  | .executables => world.isExecutable path
  | .runnable => world.isDirectory path ∨ world.isExecutable path
  | .all | .bare => True

namespace Entry

/-- A name begins with a fragment, under the case rule. -/
def Begins (ignoreCase : Bool) (fragment name : Text) : Prop :=
  if ignoreCase then Text.lower fragment <+: Text.lower name else fragment <+: name

theorem nameMatches_iff {ignoreCase : Bool} {name fragment : Text} :
    nameMatches ignoreCase name fragment = true ↔ Begins ignoreCase fragment name := by
  unfold nameMatches Begins
  split <;> exact List.isPrefixOf_iff_prefix

instance (ignoreCase : Bool) (fragment name : Text) : Decidable (Begins ignoreCase fragment name) :=
  decidable_of_iff _ nameMatches_iff

/-- A name that a directory with some children has on offer for a fragment. -/
structure OnOffer (world : World) (ignoreCase : Bool) (directory fragment : Text)
    (filter : EntryFilter) (children : List (Text × Node)) (name : Text) : Prop where
  there : name ∈ ['.'] :: ['.', '.'] :: children.map (·.1)
  begins : Begins ignoreCase fragment name
  shown : fragment = [] → name.head? ≠ some '.'
  admitted : filter.Admits world (Path.joined directory name)

/-- A name as it is offered, with a slash behind that of a directory. -/
def written (world : World) (directory : Text) (filter : EntryFilter) (name : Text) : Text :=
  if world.isDirectory (Path.joined directory name) ∧ filter ≠ .bare then name ++ ['/'] else name

end Entry

/-! ## Where a fragment looks -/

namespace Browser

variable {browser : Browser} {world : World} {base : Option Text} {fragment directory name : Text}

/-- The directory that relative fragments start from: the first base that is given. -/
def baseIn (browser : Browser) (world : World) (base : Option Text) : Text :=
  ((nonEmpty? base).or (nonEmpty? browser.base)).getD world.workingDirectory

/-- A fragment is completed with the names of a directory that begin with a name. What stands in
front of the last slash names the directory, from the base on; without a slash it is the base, and
no reference is replaced. On Windows a text that begins with a drive is not seen from the base, even
where no slash comes after the drive. -/
inductive Seeks (browser : Browser) (world : World) (base : Option Text) (fragment : Text) :
    Text → Text → Prop
  | behind (front name : Text) (hname : '/' ∉ name)
      (h : world.expandVariables (world.expandTilde (browser.settings.homeIn world) fragment) =
        front ++ '/' :: name) :
    Seeks browser world base fragment
      (if Path.isAbsolute world.platform (front ++ ['/']) then front ++ ['/']
      else Path.joined (browser.baseIn world base) (front ++ ['/'])) name
  | whole
      (h : '/' ∉
        world.expandVariables (world.expandTilde (browser.settings.homeIn world) fragment)) :
    Seeks browser world base fragment (browser.baseIn world base)
      (world.expandTilde (browser.settings.homeIn world) fragment)

theorem exists_seeks (browser : Browser) (world : World) (base : Option Text) (fragment : Text) :
    ∃ directory name, browser.Seeks world base fragment directory name := by
  let expanded := world.expandVariables (world.expandTilde (browser.settings.homeIn world) fragment)
  cases hlast : Text.lastIndex? '/' expanded with
  | none => exact ⟨_, _, .whole (Text.lastIndex?_eq_none_iff.mp hlast)⟩
  | some i =>
    obtain ⟨front, name, hexpanded, -, hname⟩ := Text.exists_of_lastIndex? hlast
    exact ⟨_, name, .behind front name hname hexpanded⟩

theorem isTildeWord_eq_false_iff :
    isTildeWord fragment = false ↔ (fragment.head? = some '~' → '/' ∈ fragment) := by
  rw [isTildeWord, ← Text.startsWith_singleton_iff]
  cases Text.startsWith fragment ['~'] <;> simp

/-- The path under which a directory is read to complete a fragment in it: behind it stands a dot
where the fragment has no slash. -/
def readAt (browser : Browser) (world : World) (fragment directory : Text) : Text :=
  if '/' ∈ world.expandVariables (world.expandTilde (browser.settings.homeIn world) fragment) then
    directory
  else Path.joined directory ['.']

theorem Seeks.eq_of_split (h : browser.Seeks world base fragment directory name) :
    (browser.split world fragment).2 = name ∧
      browser.directoryOf world fragment base = browser.readAt world fragment directory := by
  have hrelative : Path.isAbsolute world.platform ['.'] = false := by cases world.platform <;> rfl
  cases h with
  | behind front name hname h =>
    have hsplit : browser.split world fragment = (front ++ ['/'], name) := by
      simp only [split, h, Text.lastIndex?_append hname]
      rw [List.append_cons, List.take_left' (by simp), List.drop_left' (by simp)]
    rw [directoryOf, hsplit, readAt, h, if_pos (by simp)]
    exact ⟨rfl, rfl⟩
  | whole h =>
    have hsplit : browser.split world fragment =
        (['.'], world.expandTilde (browser.settings.homeIn world) fragment) := by
      simp only [split, Text.lastIndex?_eq_none_iff.mpr h]
    rw [directoryOf, hsplit, resolve, hrelative, readAt, if_neg h]
    exact ⟨rfl, rfl⟩

end Browser

/-! ## Entries by their paths -/

namespace Entry

variable {world : World} {directory fragment name : Text} {children : List (Text × Node)}
  {filter : EntryFilter}

section Listed

variable (hdisk : world.disk.Proper) (hlist : world.list directory = .ok children)
  (hsearch : world.isSearchable directory = true)
include hdisk hlist hsearch

/-- The entries of a directory are its names, each with the kind of its path. -/
theorem mem_among_iff {entry : Entry} :
    entry ∈ among world directory children ↔
      entry.name ∈ ['.'] :: ['.', '.'] :: children.map (·.1) ∧
        entry.isDirectory = world.isDirectory (Path.joined directory entry.name) := by
  have hkind : ∀ entry ∈ among world directory children,
      entry.isDirectory = world.isDirectory (Path.joined directory entry.name) := by
    intro entry hentry
    simp only [among, List.mem_cons, List.mem_map] at hentry
    obtain rfl | rfl | ⟨⟨name, node⟩, hmem, rfl⟩ := hentry
    · exact (World.isDirectory_dots hlist hsearch (.inl rfl)).symm
    · exact (World.isDirectory_dots hlist hsearch (.inr rfl)).symm
    · exact leadsIn_eq_isDirectory hdisk hlist hsearch hmem
  rw [← names_among world directory children]
  constructor
  · intro hentry
    exact ⟨List.mem_map_of_mem hentry, hkind entry hentry⟩
  · rintro ⟨hname, hdirectory⟩
    obtain ⟨other, hother, hsame⟩ := List.mem_map.mp hname
    have hwhole : other = entry := by
      have hothers := hkind other hother
      rw [hsame, ← hdirectory] at hothers
      cases other
      cases entry
      simp_all
    exact hwhole ▸ hother

end Listed

/-- The kind that is read with a name answers what the filter asks of its path. -/
theorem passes_iff {entry : Entry}
    (h : entry.isDirectory = world.isDirectory (Path.joined directory entry.name)) :
    entry.passes world directory filter = true ↔
      filter.Admits world (Path.joined directory entry.name) := by
  have hprogram : entry.isProgram world directory =
      world.isExecutable (Path.joined directory entry.name) := by
    rw [isProgram, h]
    cases hexecutable : world.isExecutable (Path.joined directory entry.name) with
    | false => exact Bool.and_false _
    | true => rw [World.not_isDirectory_of_isExecutable hexecutable]; rfl
  cases filter <;> simp [passes, EntryFilter.Admits, hprogram, h]

theorem isOffered_iff {ignoreCase : Bool} {entry : Entry}
    (h : entry.isDirectory = world.isDirectory (Path.joined directory entry.name)) :
    entry.isOffered world ignoreCase directory fragment filter = true ↔
      (fragment = [] → entry.name.head? ≠ some '.') ∧ Begins ignoreCase fragment entry.name ∧
        filter.Admits world (Path.joined directory entry.name) := by
  rw [isOffered, Bool.and_eq_true, Bool.and_eq_true, nameMatches_iff, passes_iff h, and_assoc,
    ne_eq, ← Text.startsWith_singleton_iff]
  simp [imp_iff_not_or]

theorem text_candidate {entry : Entry}
    (h : entry.isDirectory = world.isDirectory (Path.joined directory entry.name)) :
    (entry.candidate filter).text = written world directory filter entry.name := by
  rw [candidate, written, ← h]
  split <;> rfl

/-- What the walk offers, entry by entry, are the names on offer. -/
theorem mem_texts_candidatesAmong (hdisk : world.disk.Proper)
    (hlist : world.list directory = .ok children) (hsearch : world.isSearchable directory = true)
    (browser : Browser) {text : Text} :
    text ∈ (browser.candidatesAmong world directory fragment filter
        (among world directory children)).map (·.text) ↔
      ∃ name, OnOffer world browser.settings.ignoreCase directory fragment filter children name ∧
        text = written world directory filter name := by
  simp only [Browser.candidatesAmong, List.map_map, List.mem_map, List.mem_filter,
    mem_among_iff hdisk hlist hsearch]
  constructor
  · rintro ⟨entry, ⟨⟨hname, hkind⟩, hoffered⟩, rfl⟩
    obtain ⟨hshown, hbegins, hadmitted⟩ := (isOffered_iff hkind).mp hoffered
    exact ⟨entry.name, ⟨hname, hbegins, hshown, hadmitted⟩, text_candidate hkind⟩
  · rintro ⟨name, ⟨hname, hbegins, hshown, hadmitted⟩, rfl⟩
    let entry : Entry := ⟨name, world.isDirectory (Path.joined directory name)⟩
    exact ⟨entry, ⟨⟨hname, rfl⟩, (isOffered_iff rfl).mpr ⟨hshown, hbegins, hadmitted⟩⟩,
      text_candidate rfl⟩

/-- Of executable files it offers the names as they are, also where no path leads into the
directory: then there are none. -/
theorem mem_texts_candidatesAmong_executables (hdisk : world.disk.Proper)
    (hlist : world.list directory = .ok children) (browser : Browser) {text : Text} :
    text ∈ (browser.candidatesAmong world directory fragment .executables
        (among world directory children)).map (·.text) ↔
      OnOffer world browser.settings.ignoreCase directory fragment .executables children text := by
  cases hsearch : world.isSearchable directory with
  | true =>
    have hwritten : ∀ name, OnOffer world browser.settings.ignoreCase directory fragment
        .executables children name → written world directory .executables name = name := by
      intro name hoffer
      rw [written, World.not_isDirectory_of_isExecutable hoffer.admitted, if_neg (by simp)]
    rw [mem_texts_candidatesAmong hdisk hlist hsearch browser]
    constructor
    · rintro ⟨name, hoffer, rfl⟩
      rwa [hwritten name hoffer]
    · intro hoffer
      exact ⟨text, hoffer, (hwritten text hoffer).symm⟩
  | false =>
    have hnone : ∀ name ∈ ['.'] :: ['.', '.'] :: children.map (·.1),
        world.isExecutable (Path.joined directory name) = false := by
      intro name hname
      obtain ⟨hslash, hfirst⟩ := World.no_slash_of_there hdisk hlist hname
      refine Bool.eq_false_iff.mpr fun hexecutable => Bool.eq_false_iff.mp hsearch ?_
      exact World.isSearchable_of_isExecutable_joined hlist hslash hfirst hexecutable
    constructor
    · intro htext
      obtain ⟨candidate, hcandidate, -⟩ := List.mem_map.mp htext
      obtain ⟨entry, hentry, -⟩ := List.mem_map.mp hcandidate
      obtain ⟨hmem, hoffered⟩ := List.mem_filter.mp hentry
      have hname := List.mem_map_of_mem (f := (·.name)) hmem
      rw [names_among] at hname
      simp [isOffered, passes, isProgram, hnone _ hname] at hoffered
    · intro hoffer
      have hadmitted : world.isExecutable (Path.joined directory text) = true := hoffer.admitted
      rw [hnone text hoffer.there] at hadmitted
      cases hadmitted

/-- Seen through a dot a name is what it is. -/
theorem admits_dot_iff (hne : directory ≠ []) (hslash : '/' ∉ name) (hfirst : name ≠ []) :
    filter.Admits world (Path.joined (Path.joined directory ['.']) name) ↔
      filter.Admits world (Path.joined directory name) := by
  cases filter <;> simp only [EntryFilter.Admits,
    world.isDirectory_joined_dot hne (.inl rfl) hslash hfirst,
    world.isExecutable_joined_dot hne (.inl rfl) hslash hfirst]

/-- Seen through a dot a directory has the same names on offer. -/
theorem onOffer_dot_iff (hdisk : world.disk.Proper)
    (hlist : world.list (Path.joined directory ['.']) = .ok children) (hne : directory ≠ [])
    {ignoreCase : Bool} :
    OnOffer world ignoreCase (Path.joined directory ['.']) fragment filter children name ↔
      OnOffer world ignoreCase directory fragment filter children name := by
  constructor
  · rintro ⟨hthere, hbegins, hshown, hadmitted⟩
    obtain ⟨hslash, hfirst⟩ := World.no_slash_of_there hdisk hlist hthere
    exact ⟨hthere, hbegins, hshown, (admits_dot_iff hne hslash hfirst).mp hadmitted⟩
  · rintro ⟨hthere, hbegins, hshown, hadmitted⟩
    obtain ⟨hslash, hfirst⟩ := World.no_slash_of_there hdisk hlist hthere
    exact ⟨hthere, hbegins, hshown, (admits_dot_iff hne hslash hfirst).mpr hadmitted⟩

/-- So the walk offers the same through a dot, written alike. -/
theorem mem_texts_candidatesAmong_dot (hdisk : world.disk.Proper)
    (hlist : world.list directory = .ok children) (hsearch : world.isSearchable directory = true)
    (browser : Browser) {text : Text} :
    text ∈ (browser.candidatesAmong world (Path.joined directory ['.']) fragment filter
        (among world (Path.joined directory ['.']) children)).map (·.text) ↔
      ∃ name, OnOffer world browser.settings.ignoreCase directory fragment filter children name ∧
        text = written world directory filter name := by
  have hne := World.ne_nil_of_list hlist
  have hseen := (World.list_joined_dot_iff hne (.inl rfl)).mpr ⟨hlist, hsearch⟩
  rw [mem_texts_candidatesAmong hdisk hseen (World.isSearchable_joined_dot hsearch hne) browser]
  refine exists_congr fun name => ?_
  rw [onOffer_dot_iff hdisk hseen hne]
  refine and_congr_right fun hoffer => ?_
  obtain ⟨hslash, hfirst⟩ := World.no_slash_of_there hdisk hlist hoffer.there
  rw [written, written, world.isDirectory_joined_dot hne (.inl rfl) hslash hfirst]

end Entry

/-! ## Completing on fresh matches -/

namespace Browser

variable {browser : Browser} {world : World} {fragment : Text} {filter : EntryFilter}
  {base : Option Text} {children : List (Text × Node)}

theorem Seeks.list_directoryOf {directory name : Text}
    (h : browser.Seeks world base fragment directory name)
    (hlist : world.list directory = .ok children) (hsearch : world.isSearchable directory = true) :
    world.list (browser.directoryOf world fragment base) = .ok children := by
  rw [h.eq_of_split.2, readAt]
  split
  · exact hlist
  · exact (World.list_joined_dot_iff (World.ne_nil_of_list hlist) (.inl rfl)).mpr ⟨hlist, hsearch⟩

/-- What the walk offers for a fragment are the names on offer in the directory where it looks. -/
theorem Seeks.mem_texts_candidatesAmong {directory name : Text}
    (h : browser.Seeks world base fragment directory name) (hdisk : world.disk.Proper)
    (hlist : world.list directory = .ok children) (hsearch : world.isSearchable directory = true)
    {text : Text} :
    text ∈ (browser.candidatesAmong world (browser.directoryOf world fragment base) name filter
        (Entry.among world (browser.directoryOf world fragment base) children)).map (·.text) ↔
      ∃ entry,
        Entry.OnOffer world browser.settings.ignoreCase directory name filter children entry ∧
          text = Entry.written world directory filter entry := by
  rw [h.eq_of_split.2, readAt]
  split
  · exact Entry.mem_texts_candidatesAmong hdisk hlist hsearch browser
  · exact Entry.mem_texts_candidatesAmong_dot hdisk hlist hsearch browser

/-- What is offered in a directory that is read is one group on fresh matches. -/
theorem complete_run_fresh (filter : EntryFilter) (htilde : isTildeWord fragment = false)
    (hlist : world.list (browser.directoryOf world fragment base) = .ok children)
    (ignoreCase : Bool) :
    let directory := browser.directoryOf world fragment base
    let name := (browser.split world fragment).2
    let offered := browser.candidatesAmong world directory name filter
      (Entry.among world directory children)
    browser.complete world fragment filter base { ignoreCase } =
      .ok () { ({ ignoreCase, pending := offered } : Matches).finishGroup with
        echo := if filter = .executables then none else some ⟨name, .path⟩ } := by
  intro directory name offered
  rw [complete_of_list htilde hlist]
  have hadd : Filling.addAll offered ({ ignoreCase } : Matches) =
      .ok () { ignoreCase, pending := offered } := Filling.addAll_run offered rfl
  refine (Filling.bind_eq_of_ok hadd).trans ?_
  have hecho := Matches.echo_finishGroup { ignoreCase, pending := offered }
  have hfinish : Filling.finishGroup ({ ignoreCase, pending := offered } : Matches) =
      .ok () ({ ignoreCase, pending := offered } : Matches).finishGroup := rfl
  refine (Filling.bind_eq_of_ok hfinish).trans ?_
  split
  · have hclosed := Matches.finishGroup_of_closed
      (Matches.finishGroup_pending { ignoreCase, pending := offered })
    exact (Filling.setEcho_run _ hecho).trans (by rw [hclosed])
  · next hfilter =>
    rw [if_pos (not_ne_iff.mp hfilter)]
    exact congrArg (EStateM.Result.ok ()) (Matches.with_echo_none hecho).symm

/-- Where a disk keeps its places in another order, the same is offered in another order. -/
theorem candidatesAmong_reordered (browser : Browser) (filter : EntryFilter)
    (hdisk : world.disk.Proper) {nodes : List (Place × Node)}
    (hnodes : nodes.Perm world.disk.nodes) {children others : List (Text × Node)}
    (h : others.Perm children) (directory name : Text) :
    (browser.candidatesAmong (world.reordered nodes) directory name filter
        (Entry.among (world.reordered nodes) directory others)).Perm
      (browser.candidatesAmong world directory name filter
        (Entry.among world directory children)) := by
  have hoffered : Entry.isOffered (world.reordered nodes) browser.settings.ignoreCase directory name
      filter = Entry.isOffered world browser.settings.ignoreCase directory name filter := by
    funext entry
    simp only [Entry.isOffered, Entry.passes, Entry.isProgram,
      World.isExecutable_reordered hdisk hnodes]
  have hleads : Entry.leadsIn (world.reordered nodes) = Entry.leadsIn world := by
    funext path node
    simp only [Entry.leadsIn, World.target, World.lookup, World.locate_reordered hdisk hnodes]
  rw [candidatesAmong, candidatesAmong, hoffered, Entry.among, Entry.among, hleads]
  exact (((h.map _).cons _).cons _).filter _ |>.map _

theorem kind_of_mem_candidatesAmong {directory name : Text} {entries : List Entry}
    {candidate : Candidate}
    (h : candidate ∈ browser.candidatesAmong world directory name filter entries) :
    candidate.kind = .path := by
  obtain ⟨entry, -, rfl⟩ := List.mem_map.mp h
  rw [Entry.candidate]
  split <;> rfl

/-- With regard to case, it makes no difference in which order a directory is read. -/
theorem complete_reordered (hdisk : world.disk.Proper) {nodes : List (Place × Node)}
    (hnodes : nodes.Perm world.disk.nodes) (htilde : isTildeWord fragment = false)
    (hlist : world.list (browser.directoryOf world fragment base) = .ok children) :
    browser.complete (world.reordered nodes) fragment filter base {} =
      browser.complete world fragment filter base {} := by
  have hsplit : browser.split (world.reordered nodes) fragment =
      browser.split world fragment := by
    simp only [split, World.expandVariables_reordered]
    rfl
  have hdirectory : browser.directoryOf (world.reordered nodes) fragment base =
      browser.directoryOf world fragment base := by
    rw [directoryOf, hsplit]
    rfl
  obtain ⟨others, hothers, hperm⟩ := World.list_reordered hdisk hnodes hlist
  have hoffered := candidatesAmong_reordered browser filter hdisk hnodes hperm
    (browser.directoryOf world fragment base) (browser.split world fragment).2
  rw [← hdirectory] at hothers
  rw [complete_run_fresh filter htilde hothers, complete_run_fresh filter htilde hlist, hdirectory,
    hsplit, Matches.finishGroup_fresh_of_perm hoffered fun _ => kind_of_mem_candidatesAmong]

/-- On fresh matches, the candidates in a directory that can be read and searched are the names that
it has on offer, in order of their keys and each once, and the echo is what they were matched with.
With regard to case, the order in which the directory is read makes no difference. -/
theorem complete_exact (browser : Browser) (filter : EntryFilter) {world : World}
    {base : Option Text} {fragment directory name : Text} {children : List (Text × Node)}
    (hdisk : world.disk.Proper) (htilde : fragment.head? = some '~' → '/' ∈ fragment)
    (hseeks : browser.Seeks world base fragment directory name)
    (hlist : world.list directory = .ok children)
    (hsearch : world.isSearchable directory = true) :
    let ignoreCase := browser.settings.ignoreCase
    ∃ matched, browser.complete world fragment filter base { ignoreCase } = .ok () matched ∧
      matched.candidates.Pairwise
        (fun a b => Matches.sortKey ignoreCase a ≤ Matches.sortKey ignoreCase b) ∧
      (matched.candidates.map (·.text)).Nodup ∧
      (∀ candidate, candidate ∈ matched.candidates ↔ candidate.kind = .path ∧
        ∃ entry, Entry.OnOffer world ignoreCase directory name filter children entry ∧
          candidate.text = Entry.written world directory filter entry) ∧
      matched.echo = (if filter = .executables then none else some ⟨name, .path⟩) ∧
      (ignoreCase = false → ∀ nodes, nodes.Perm world.disk.nodes →
        browser.complete (world.reordered nodes) fragment filter base { ignoreCase } =
          .ok () matched) := by
  intro ignoreCase
  have hseen := hseeks.list_directoryOf hlist hsearch
  have hword := isTildeWord_eq_false_iff.mpr htilde
  have hrun := complete_run_fresh filter hword hseen ignoreCase
  rw [hseeks.eq_of_split.1] at hrun
  have hcandidates := Matches.candidates_finishGroup_fresh ignoreCase
    (browser.candidatesAmong world (browser.directoryOf world fragment base) name filter
      (Entry.among world (browser.directoryOf world fragment base) children))
  refine ⟨_, hrun, ?_, ?_, ?_, rfl, ?_⟩
  · exact hcandidates ▸ Matches.pairwise_arranged _ _
  · exact hcandidates ▸ Matches.nodup_arranged _ _
  · intro candidate
    rw [← hseeks.mem_texts_candidatesAmong hdisk hlist hsearch]
    exact hcandidates ▸ Matches.mem_arranged_of_paths fun _ => kind_of_mem_candidatesAmong
  · intro hcase nodes hnodes
    rw [← hrun, hcase]
    exact complete_reordered hdisk hnodes hword hseen

theorem complete_exact_link :
    let disk := ((({} : Disk).put "/w/b/al".toList (.link "../ab".toList)).put "/w/b/ad".toList
      (.file [] true)).put "/w/ab".toList (.directory true)
    let world : World := { environment := [("D".toList, "/w".toList)], disk }
    let browser : Browser := {}
    ∃ matched, browser.complete world "$D/b/a".toList .directories none {} = .ok () matched ∧
      ⟨"al/".toList, .path⟩ ∈ matched.candidates ∧
      matched.echo = some ⟨"a".toList, .path⟩ ∧
      browser.complete (world.reordered world.disk.nodes.reverse) "$D/b/a".toList .directories none
        {} = .ok () matched := by
  intro disk world browser
  have hdisk : world.disk.Proper :=
    ((Disk.proper_empty.put (by decide) _).put (by decide) _).put (by decide) _
  have hseeks : browser.Seeks world none "$D/b/a".toList "/w/b/".toList "a".toList :=
    .behind "/w/b".toList _ (by decide) rfl
  have hoffer : Entry.OnOffer world false "/w/b/".toList "a".toList .directories
      [("al".toList, .link "../ab".toList), ("ad".toList, .file [] true)] "al".toList :=
    ⟨by decide, by decide, by decide, rfl⟩
  obtain ⟨matched, hrun, -, -, hcandidates, hecho, hreordered⟩ :=
    browser.complete_exact .directories hdisk (by decide) hseeks rfl rfl
  refine ⟨matched, hrun, ?_, hecho, hreordered rfl _ (List.reverse_perm _)⟩
  exact (hcandidates _).mpr ⟨rfl, _, hoffer, rfl⟩

/-- Nothing that a directory has on offer is offered, though it can be read: on Windows it is named
by a relative path that begins with a drive, which is taken for an absolute one; or it cannot be
searched, and the dot in it that a fragment without a slash is completed in cannot be looked up. -/
theorem not_complete_exact :
    (let disk := ({} : Disk).put "/p/C:sub/tool".toList (.file [] false)
    let world : World := { platform := .windows, workingDirectory := "/w".toList, disk }
    let browser : Browser := { base := some "/p".toList }
    world.list (Path.joined "/p".toList "C:sub/".toList) = .ok [("tool".toList, .file [] false)] ∧
      browser.complete world "C:sub/to".toList .all none {} =
        .ok () { pending := [⟨"to".toList, .path⟩] }) ∧
    let disk := (({} : Disk).put "/d/abc".toList (.file [] false)).put "/d".toList
      (.directory true false)
    let world : World := { disk }
    let browser : Browser := { base := some "/d".toList }
    world.list "/d".toList = .ok [("abc".toList, .file [] false)] ∧
      browser.complete world "a".toList .all none {} =
        .ok () { pending := [⟨"a".toList, .path⟩] } := by
  refine ⟨⟨by decide, ?_⟩, by decide, ?_⟩ <;> decide +kernel

end Browser

end PaneCompletion
