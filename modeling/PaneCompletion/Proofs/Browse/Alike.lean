import PaneCompletion.Proofs.Browse.Offer

/-!
# Directories that look alike

What completes a fragment depends on the world in three questions only: what is listed in the
directory where the fragment looks, where its entries lead, and which of them may be run. Where two
directories, of one world or of two, have the same answers (`World.Alike`), fragments that look for
the same name in them are completed alike (`Browser.complete_alike`).

A fragment typed inside a directory and the same fragment behind the directory's path are cut at the
same slash, but they reach the directory of their entries along different paths: `d//sub/` and
`d/sub/` when `d` ends in a slash, which lead to one place (`Browser.alike_behind`), but `d/.` and
`d/` for a fragment without a slash. Names behind these lead to one place, too; only, `d/.` itself
is a name that is looked up in the directory, so it can be read where the directory can be searched
as well, and `d/` wherever it can be read. In a directory with the one permission and not the other
the two ways part (`Browser.completeIn_eq_complete_iff`).

1. directories that look alike;
2. one fragment inside a directory and behind its path.
-/

namespace PaneCompletion

/-! ## Directories that look alike -/

/-- Two directories, each in its world, answer alike what is asked to complete a name in them. -/
structure World.Alike (world other : World) (directory seen : Text) : Prop where
  list_eq : world.list directory = other.list seen
  leadsIn_eq (name : Text) (node : Node) :
    Entry.leadsIn world (Path.joined directory name) node =
      Entry.leadsIn other (Path.joined seen name) node
  isExecutable_eq (name : Text) :
    world.isExecutable (Path.joined directory name) = other.isExecutable (Path.joined seen name)

namespace Browser

variable {world other : World} {directory seen : Text}

theorem candidatesAmong_alike (h : World.Alike world other directory seen) (browser : Browser)
    (name : Text) (filter : EntryFilter) (children : List (Text × Node)) :
    browser.candidatesAmong world directory name filter (Entry.among world directory children) =
      browser.candidatesAmong other seen name filter (Entry.among other seen children) := by
  have hoffered : Entry.isOffered world browser.settings.ignoreCase directory name filter =
      Entry.isOffered other browser.settings.ignoreCase seen name filter := by
    funext entry
    cases filter <;> simp only [Entry.isOffered, Entry.passes, Entry.isProgram, h.isExecutable_eq]
  have hamong : Entry.among world directory children = Entry.among other seen children := by
    simp only [Entry.among, h.leadsIn_eq]
  rw [candidatesAmong, candidatesAmong, hoffered, hamong]

/-- Fragments that look for one name in directories that look alike are completed alike. -/
theorem complete_alike {browser : Browser} {fragment typed : Text} {base inside : Option Text}
    (hfragment : isTildeWord fragment = false) (htyped : isTildeWord typed = false)
    (hname : (browser.split world fragment).2 = (browser.split other typed).2)
    (h : World.Alike world other (browser.directoryOf world fragment base)
      (browser.directoryOf other typed inside)) (filter : EntryFilter) :
    browser.complete world fragment filter base = browser.complete other typed filter inside := by
  cases hlist : world.list (browser.directoryOf world fragment base) with
  | error error =>
    rw [complete_of_error hfragment hlist, complete_of_error htyped (h.list_eq ▸ hlist), hname]
  | ok children =>
    rw [complete_of_list hfragment hlist, complete_of_list htyped (h.list_eq ▸ hlist), hname]
    simp only [candidatesAmong_alike h]

end Browser

/-! ## One fragment inside a directory and behind its path -/

namespace World

variable {world : World}

theorem isExecutable_of_locate_eq (hposix : world.platform = .posix) {path seen : Text}
    (h : world.locate path = world.locate seen) :
    world.isExecutable path = world.isExecutable seen := by
  simp only [isExecutable, lookup, h, hposix]

/-- Paths that lead to the same with every name behind them are those of directories that look
alike if the same is listed, where a name is no part of what makes a program. -/
theorem Alike.of_locate (hposix : world.platform = .posix) {directory seen : Text}
    (hlist : world.list directory = world.list seen)
    (h : ∀ name, Text.startsWith name ['/'] = false →
      world.locate (Path.joined directory name) = world.locate (Path.joined seen name)) :
    Alike world world directory seen := by
  have hlocate : ∀ name,
      world.locate (Path.joined directory name) = world.locate (Path.joined seen name) := by
    intro name
    cases hname : Text.startsWith name ['/'] with
    | true => rw [Path.joined, Path.joined, if_pos hname, if_pos hname]
    | false => exact h name hname
  refine ⟨hlist, fun name node => ?_, fun name => isExecutable_of_locate_eq hposix (hlocate name)⟩
  rw [Entry.leadsIn, Entry.leadsIn]
  cases node <;> simp only [target, lookup, hlocate]

/-- A slash at the end of a directory's path makes no difference to reading it. -/
theorem list_append_slash (world : World) {directory : Text} (hne : directory ≠ []) :
    world.list (directory ++ ['/']) = world.list directory := by
  have hnil : Disk.Stays [] := .inl rfl
  rw [list, list, world.locate_append_slash hne rfl,
    world.locate_joined_stays hne rfl (by decide) hnil fun _ _ => rfl]
  cases world.locate directory with
  | error error => rfl
  | ok found =>
    obtain ⟨place, node⟩ := found
    cases node <;> rfl

end World

namespace Browser

variable {browser : Browser} {world : World} {directory fragment name : Text}

theorem startsWith_take_reach (hrelative : fragment.head? ≠ some '/')
    (hname : Text.startsWith name ['/'] = false) :
    Text.startsWith (fragment.take (Text.reach '/' fragment) ++ name) ['/'] = false := by
  cases hreach : Text.reach '/' fragment with
  | zero => exact hname
  | succ more =>
    cases fragment with
    | nil => exact hname
    | cons c rest =>
      rw [← Bool.not_eq_true, Text.startsWith_singleton_iff]
      exact hrelative

theorem baseInside_of_relative (hposix : world.platform = .posix)
    (hrelative : Path.isAbsolute .posix fragment = false) (htilde : fragment.head? ≠ some '~') :
    baseInside world directory fragment = some directory := by
  have hroot : Path.isRoot .posix fragment = false := by
    rw [Path.isRoot]
    refine beq_eq_false_iff_ne.mpr ?_
    rintro rfl
    cases hrelative
  have hword : Text.startsWith fragment ['~'] = false :=
    Bool.eq_false_iff.mpr (Text.startsWith_singleton_iff.not.mpr htilde)
  rw [baseInside, hposix, hroot, hrelative, hword]
  rfl

/-- A relative fragment looks in the directory inside which it is completed, or further in. -/
theorem directoryOf_inside (hposix : world.platform = .posix) (hne : directory ≠ [])
    (hrelative : fragment.head? ≠ some '/') (hdollar : '$' ∉ fragment)
    (htilde : fragment.head? ≠ some '~') :
    browser.directoryOf world fragment (some directory) =
      Path.joined directory (frontOf fragment) := by
  have hresolve : ∀ text : Text, Text.startsWith text ['/'] = false →
      browser.resolve world (some directory) text = Path.joined directory text := by
    intro text htext
    obtain ⟨c, rest, rfl⟩ := List.exists_cons_of_ne_nil hne
    simp [resolve, Path.isAbsolute, hposix, htext, nonEmpty?]
  rw [directoryOf, split_of_not_mem hdollar htilde]
  refine hresolve _ ?_
  rw [frontOf]
  split
  · rfl
  · rw [← List.append_nil (fragment.take _)]
    exact startsWith_take_reach hrelative rfl

/-- Behind the path of a directory the same fragment looks along that path. -/
theorem directoryOf_behind (hroot : directory.head? = some '/') (hfixed : '$' ∉ directory)
    (hdollar : '$' ∉ fragment) (base : Option Text) :
    browser.directoryOf world (directory ++ '/' :: fragment) base =
      directory ++ '/' :: fragment.take (Text.reach '/' fragment) := by
  have hplain : '$' ∉ directory ++ '/' :: fragment := by simp [hfixed, hdollar]
  have hhead : ∀ more, (directory ++ more).head? = some '/' := by
    intro more
    rw [List.head?_append, hroot]
    rfl
  have habsolute : ∀ more, Path.isAbsolute world.platform (directory ++ more) = true := by
    intro more
    rw [Path.isAbsolute, Text.startsWith_singleton_iff.mpr (hhead more), Bool.or_true]
  have hreach : Text.reach '/' (directory ++ '/' :: fragment) ≠ 0 :=
    Text.reach_eq_zero_iff.not.mpr (by simp)
  rw [directoryOf, split_of_not_mem hplain (by simp [hhead]), frontOf, if_neg hreach,
    Text.take_reach_behind, resolve, if_pos (habsolute _)]

/-- A fragment with a slash looks in one place, inside a directory and behind its path. -/
theorem alike_behind (hposix : world.platform = .posix) (hne : directory ≠ [])
    (hrelative : fragment.head? ≠ some '/') (hslash : '/' ∈ fragment) :
    World.Alike world world (Path.joined directory (frontOf fragment))
      (directory ++ '/' :: fragment.take (Text.reach '/' fragment)) := by
  obtain ⟨i, hlast⟩ : ∃ i, Text.lastIndex? '/' fragment = some i :=
    Option.ne_none_iff_exists'.mp (Text.lastIndex?_eq_none_iff.not.mpr (by simpa using hslash))
  obtain ⟨front, back, rfl, -, hback⟩ := Text.exists_of_lastIndex? hlast
  have hfront : Text.startsWith (front ++ ['/']) ['/'] = false := by
    have hstart := startsWith_take_reach hrelative (rfl : Text.startsWith [] ['/'] = false)
    rwa [Text.reach_append hback, List.append_cons, List.take_left' (by simp), List.append_nil]
      at hstart
  have htake : (front ++ '/' :: back).take (Text.reach '/' (front ++ '/' :: back)) =
      front ++ ['/'] := by
    rw [Text.reach_append hback, List.append_cons, List.take_left' (by simp)]
  rw [frontOf, if_neg (by simp [Text.reach_append hback]), htake]
  refine .of_locate hposix ?_ fun name hname => ?_
  · rw [World.list, World.list, world.locate_append_slash hne hfront]
  · have hwhole : Text.startsWith (front ++ '/' :: name) ['/'] = false := by
      cases front with
      | nil => cases hfront
      | cons c rest => exact hfront
    have hbehind : Path.joined (directory ++ '/' :: (front ++ ['/'])) name =
        directory ++ '/' :: (front ++ '/' :: name) := by
      have hends : Text.endsIn '/' (directory ++ '/' :: (front ++ ['/'])) = true := by
        rw [Text.endsIn, List.append_cons, ← List.append_assoc, List.getLast?_concat]
        rfl
      simp [Path.joined, hname, hends]
    rw [World.joined_joined_slash hfront hname, hbehind, world.locate_append_slash hne hwhole]

/-- So does one without, where names can be looked up in the directory. -/
theorem alike_dot (hposix : world.platform = .posix) (hne : directory ≠ [])
    (hlist : world.list (Path.joined directory ['.']) = world.list directory)
    (hsearch : world.isSearchable directory = true) :
    World.Alike world world (Path.joined directory ['.']) (directory ++ ['/']) := by
  refine .of_locate hposix (hlist.trans (world.list_append_slash hne).symm) fun name hname => ?_
  have hbehind : Path.joined (directory ++ ['/']) name = directory ++ '/' :: name := by
    simp [Path.joined, hname, Text.endsIn]
  rw [World.locate_joined_dot_of_isSearchable hsearch hne (.inl rfl) hname, hbehind,
    world.locate_append_slash hne hname]

/-- Both ways look for the same name. -/
theorem split_inside_behind (browser : Browser) (world : World)
    (hroot : directory.head? = some '/') (hfixed : '$' ∉ directory) (hdollar : '$' ∉ fragment)
    (htilde : fragment.head? ≠ some '~') :
    isTildeWord (directory ++ '/' :: fragment) = false ∧
      (browser.split world fragment).2 =
        (browser.split world (directory ++ '/' :: fragment)).2 := by
  have hhead : (directory ++ '/' :: fragment).head? ≠ some '~' := by
    rw [List.head?_append, hroot]
    simp
  have hplain : '$' ∉ directory ++ '/' :: fragment := by simp [hfixed, hdollar]
  refine ⟨isTildeWord_of_head hhead, ?_⟩
  rw [split_of_not_mem hdollar htilde, split_of_not_mem hplain hhead, Text.drop_reach_behind]

section Relative

variable (hposix : world.platform = .posix) (hroot : directory.head? = some '/')
  (hfixed : '$' ∉ directory) (hrelative : fragment.head? ≠ some '/') (hdollar : '$' ∉ fragment)
  (htilde : fragment.head? ≠ some '~')
include hposix hroot hfixed hrelative hdollar htilde

/-- The paths along which a fragment without a slash looks. -/
theorem directoryOf_inside_behind (browser : Browser) (hslash : '/' ∉ fragment) :
    browser.directoryOf world fragment (some directory) = Path.joined directory ['.'] ∧
      browser.directoryOf world (directory ++ '/' :: fragment) none = directory ++ ['/'] := by
  have hne := List.ne_nil_of_mem (List.mem_of_head? hroot)
  have hreach := Text.reach_eq_zero_iff.mpr hslash
  rw [directoryOf_inside hposix hne hrelative hdollar htilde, frontOf, if_pos hreach,
    directoryOf_behind hroot hfixed hdollar none, hreach, List.take_zero]
  exact ⟨rfl, rfl⟩

/-- A fragment is completed alike in the two ways if it has a slash, or if the directory can be
searched should it be one that can be read. -/
theorem complete_inside_eq (browser : Browser) (filter : EntryFilter)
    (hsearch : '/' ∉ fragment → ∀ children, world.list directory = .ok children →
      world.isSearchable directory = true) :
    browser.complete world fragment filter (some directory) =
      browser.complete world (directory ++ '/' :: fragment) filter none := by
  have hne := List.ne_nil_of_mem (List.mem_of_head? hroot)
  have hword := isTildeWord_of_head htilde
  obtain ⟨hwhole, hname⟩ := browser.split_inside_behind world hroot hfixed hdollar htilde
  by_cases hslash : '/' ∈ fragment
  · refine complete_alike hword hwhole hname ?_ filter
    rw [directoryOf_inside hposix hne hrelative hdollar htilde,
      directoryOf_behind hroot hfixed hdollar none]
    exact alike_behind hposix hne hrelative hslash
  obtain ⟨hinside, hbehind⟩ :=
    browser.directoryOf_inside_behind hposix hroot hfixed hrelative hdollar htilde hslash
  cases hlist : world.list directory with
  | error error =>
    -- neither of the two paths is read
    obtain ⟨other, hdot⟩ : ∃ other, world.list (Path.joined directory ['.']) = .error other := by
      cases hdot : world.list (Path.joined directory ['.']) with
      | error other => exact ⟨other, rfl⟩
      | ok children =>
        cases hlist.symm.trans ((World.list_joined_dot_iff hne (.inl rfl)).mp hdot).1
    have hlistBehind := (world.list_append_slash hne).trans hlist
    rw [← hinside] at hdot
    rw [← hbehind] at hlistBehind
    rw [complete_of_error hword hdot, complete_of_error hwhole hlistBehind, hname]
  | ok children =>
    have hsearchable := hsearch hslash children hlist
    have hdot := (World.list_joined_dot_iff hne (.inl rfl)).mpr ⟨hlist, hsearchable⟩
    refine complete_alike hword hwhole hname ?_ filter
    rw [hinside, hbehind]
    exact alike_dot hposix hne (hdot.trans hlist.symm) hsearchable

/-- In a directory that can be read and not searched, a fragment without a slash is left in an open
group by the one way, and has its group closed by the other. -/
theorem complete_inside_ne (browser : Browser) (filter : EntryFilter) (hslash : '/' ∉ fragment)
    {children : List (Text × Node)} (hlist : world.list directory = .ok children)
    (hsearch : world.isSearchable directory ≠ true) (ignoreCase : Bool) :
    ∃ inside behind,
      browser.complete world fragment filter (some directory) { ignoreCase } = .ok () inside ∧
      browser.complete world (directory ++ '/' :: fragment) filter none { ignoreCase } =
        .ok () behind ∧
      inside ≠ behind := by
  have hne := List.ne_nil_of_mem (List.mem_of_head? hroot)
  have hword := isTildeWord_of_head htilde
  obtain ⟨hwhole, -⟩ := browser.split_inside_behind world hroot hfixed hdollar htilde
  obtain ⟨hinside, hbehind⟩ :=
    browser.directoryOf_inside_behind hposix hroot hfixed hrelative hdollar htilde hslash
  have hlistBehind := (world.list_append_slash hne).trans hlist
  rw [← hbehind] at hlistBehind
  cases hdot : world.list (Path.joined directory ['.']) with
  | ok others => exact absurd ((World.list_joined_dot_iff hne (.inl rfl)).mp hdot).2 hsearch
  | error error =>
    rw [← hinside] at hdot
    have hrun : browser.complete world fragment filter (some directory) { ignoreCase } =
        .ok () { ignoreCase, pending := [⟨(browser.split world fragment).2, .path⟩] } := by
      rw [complete_of_error hword hdot]
      exact Filling.addAll_run _ rfl
    refine ⟨_, _, hrun, complete_run_fresh filter hwhole hlistBehind ignoreCase, fun hsame => ?_⟩
    have hpending := congrArg Matches.pending hsame
    dsimp only at hpending
    rw [Matches.finishGroup_pending] at hpending
    cases hpending

end Relative

/-- On POSIX a relative fragment is completed inside an absolute directory, on fresh matches, as it
is behind the directory's path, whatever stands there and whichever base the browser has: exactly
unless the directory can be read but not searched and the fragment has no slash. -/
theorem completeIn_eq_complete_iff (browser : Browser) (hposix : world.platform = .posix)
    (hdirectory : Path.isAbsolute .posix directory = true) (hfixed : '$' ∉ directory)
    (hrelative : Path.isAbsolute .posix fragment = false) (hdollar : '$' ∉ fragment)
    (htilde : fragment.head? ≠ some '~') (filter : EntryFilter) (ignoreCase : Bool) :
    ∃ inside behind,
      browser.completeIn world directory fragment filter { ignoreCase } = .ok () inside ∧
      browser.complete world (directory ++ '/' :: fragment) filter none { ignoreCase } =
        .ok () behind ∧
      (inside = behind ↔ ('/' ∉ fragment → ∀ children, world.list directory = .ok children →
        world.isSearchable directory = true)) := by
  have hroot : directory.head? = some '/' := Text.startsWith_singleton_iff.mp hdirectory
  have hstart : fragment.head? ≠ some '/' := fun h =>
    absurd (Text.startsWith_singleton_iff.mpr h) (Bool.eq_false_iff.mp hrelative)
  rw [completeIn, baseInside_of_relative hposix hrelative htilde]
  by_cases hsearch : '/' ∉ fragment → ∀ children, world.list directory = .ok children →
      world.isSearchable directory = true
  · have hsame :=
      complete_inside_eq hposix hroot hfixed hstart hdollar htilde browser filter hsearch
    obtain ⟨_, matched, hrun, -⟩ :=
      browser.allowed_complete world fragment filter (some directory) { ignoreCase } rfl
    exact ⟨matched, matched, hrun, hsame ▸ hrun, iff_of_true rfl hsearch⟩
  · have hparts := hsearch
    push Not at hparts
    obtain ⟨hslash, children, hlist, hclosed⟩ := hparts
    obtain ⟨inside, behind, hinside, hbehind, hne⟩ := complete_inside_ne hposix hroot hfixed hstart
      hdollar htilde browser filter hslash hlist hclosed ignoreCase
    exact ⟨inside, behind, hinside, hbehind, iff_of_false hne hsearch⟩

theorem completeIn_eq_complete_iff_link :
    let disk := ((({} : Disk).put "/p".toList (.link "/q".toList)).put "/q/sub/foo".toList
      (.file [] false)).put "/q/sub/far".toList (.link "/nowhere".toList)
    let world : World := { disk }
    let browser : Browser := { base := some "/w".toList }
    let matched : Matches :=
      { groups := [[⟨"far".toList, .path⟩, ⟨"foo".toList, .path⟩]]
        echo := some ⟨"f".toList, .path⟩ }
    browser.completeIn world "/p/".toList "sub/f".toList .all {} = .ok () matched ∧
      browser.complete world "/p//sub/f".toList .all none {} = .ok () matched := by
  intro disk world browser matched
  have hposix : world.platform = .posix := rfl
  have hdirectory : Path.isAbsolute .posix "/p/".toList = true := rfl
  have hrelative : Path.isAbsolute .posix "sub/f".toList = false := rfl
  obtain ⟨inside, behind, hinside, hbehind, hiff⟩ := browser.completeIn_eq_complete_iff hposix
    hdirectory (by decide) hrelative (by decide) (by decide) .all false
  have hrun : browser.completeIn world "/p/".toList "sub/f".toList .all {} = .ok () matched := by
    decide +kernel
  obtain rfl : inside = behind := hiff.mpr fun hslash => absurd hslash (by decide)
  cases hinside.symm.trans hrun
  exact ⟨hrun, hbehind⟩

/-- Inside a directory that can be read but not searched a name is not completed; behind its path it
is. -/
theorem not_completeIn_eq_complete :
    let disk := (({} : Disk).put "/d/abc".toList (.file [] false)).put "/d".toList
      (.directory true false)
    let world : World := { disk }
    let browser : Browser := {}
    browser.completeIn world "/d".toList "a".toList .all {} =
        .ok () { pending := [⟨"a".toList, .path⟩] } ∧
      browser.complete world "/d/a".toList .all none {} =
        .ok () { groups := [[⟨"abc".toList, .path⟩]], echo := some ⟨"a".toList, .path⟩ } := by
  intro disk world browser
  exact ⟨by decide +kernel, by decide +kernel⟩

end Browser

end PaneCompletion
