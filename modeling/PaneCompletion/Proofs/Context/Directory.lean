import PaneCompletion.Proofs.Context.Echo
import PaneCompletion.Proofs.World.Lookup

/-!
# The directory a candidate goes into

A candidate goes in behind the last slash of what was typed, and there it should name the file that
it was offered for: the text in front of it has to denote the directory that was read. The offset is
found in the line as it was typed, the directory in the fragment once its references are replaced.
The two agree where the fragment is parted (`World.Parted`), and then what is offered are entries of
the directory that the line has in front of the offset (`offers_entries_of_spliced_directory`). The
pane's own directory is read with a dot behind its path, which is not always possible where the
directory itself can be read.

A value with a slash, of a reference behind the last slash that was typed, is not parted from its
name, and neither are braces around a slash. There the entries are offered of a directory that the
line does not name (`not_offers_entries_of_value`).

1. completing an unknown command;
2. what a text denotes;
3. entries of the directory in front.
-/

namespace PaneCompletion

/-! ## Completing an unknown command -/

namespace Context

/-- An unknown command has the fragment completed as a path. -/
theorem complete?_other (context : Context) (world : World) {line : Text}
    (hstop : (Request.ofLine .other line).stopsAtQuote = false)
    (htilde : (Request.ofLine .other line).fragment.head? ≠ some '~') :
    ∃ matched,
      (context.complete? world (.ofLine .other line)).run context.noMatches =
        .ok (.ok (Request.ofLine .other line).pathStart) matched ∧
      context.browser.complete world (Request.ofLine .other line).fragment .all none
        context.noMatches = .ok () matched := by
  have htarget : context.target (.ofLine .other line) =
      ⟨.path (Request.ofLine .other line).fragment .all,
        (Request.ofLine .other line).pathStart⟩ := target_of_no_rule rfl hstop
  obtain ⟨matched, hrun⟩ :=
    context.complete?_run world (.ofLine .other line) (m := context.noMatches) rfl
  have hmisfit : context.misfit? world (context.target (.ofLine .other line)).task = none := by
    rw [htarget]
    exact context.settings.homeMisfit?_of_head htilde world
  rw [hmisfit] at hrun
  have hperform := (complete?_ok hrun).2
  rw [htarget] at hrun hperform
  exact ⟨matched, hrun, hperform⟩

/-! ## What a text denotes -/

/-- The directory in which relative paths begin. -/
def pane (context : Context) (world : World) : Text :=
  (nonEmpty? context.currentDirectory).getD world.workingDirectory

theorem pane_ne_nil (context : Context) {world : World} (h : world.workingDirectory ≠ []) :
    context.pane world ≠ [] := by
  rw [pane]
  cases hcurrent : nonEmpty? context.currentDirectory with
  | none => exact h
  | some directory =>
    unfold nonEmpty? at hcurrent
    split at hcurrent
    · cases hcurrent
      simp
    · cases hcurrent

/-- The directory that a text in front of a candidate denotes: the pane's where there is no text. -/
def denoted (context : Context) (world : World) (front : Text) : Text :=
  if front = [] then context.pane world
  else
    let directory := world.expandVariables front
    if Path.isAbsolute world.platform directory then directory
    else Path.joined (context.pane world) directory

theorem resolve_browser (context : Context) (world : World) (directory : Text) :
    context.browser.resolve world none directory =
      if Path.isAbsolute world.platform directory then directory
      else Path.joined (context.pane world) directory := rfl

/-- The path under which the directory is read that a text denotes: a dot stands behind the pane's.
-/
def readAs (context : Context) (world : World) (front : Text) : Text :=
  if front = [] then Path.joined (context.denoted world front) ['.']
  else context.denoted world front

/-- What is read there is in the directory that is denoted. -/
theorem list_denoted (context : Context) {world : World} (hworking : world.workingDirectory ≠ [])
    {front : Text} {children : List (Text × Node)}
    (h : world.list (context.readAs world front) = .ok children) :
    world.list (context.denoted world front) = .ok children := by
  rw [readAs] at h
  split at h
  · next hfront =>
    have hne : context.denoted world front ≠ [] := by
      rw [denoted, if_pos hfront]
      exact context.pane_ne_nil hworking
    exact ((World.list_joined_dot_iff hne (.inl rfl)).mp h).1
  · exact h

/-- A parted fragment is completed in the directory that its text up to the last slash denotes. -/
theorem directoryOf_of_parted (context : Context) {world : World} {fragment : Text}
    (h : world.Parted fragment) (htilde : fragment.head? ≠ some '~') :
    context.browser.directoryOf world fragment none =
      context.readAs world (fragment.take (Text.reach '/' fragment)) := by
  rw [Browser.directoryOf, Browser.split_of_parted h htilde, readAs, denoted, resolve_browser]
  by_cases hreach : Text.reach '/' fragment = 0
  · rw [if_pos hreach, hreach, List.take_zero, if_pos rfl, if_pos rfl]
    have hrelative : Path.isAbsolute world.platform ['.'] = false := by
      cases world.platform <;> rfl
    simp only [hrelative, Bool.false_eq_true, if_false]
  · have hfront : fragment.take (Text.reach '/' fragment) ≠ [] := by
      intro hnil
      have hlength := congrArg List.length hnil
      have hle := Text.reach_le '/' fragment
      rw [List.length_take, List.length_nil] at hlength
      omega
    rw [if_neg hreach, if_neg hfront, if_neg hfront]

end Context

/-! ## Entries of the directory in front -/

/-- An unknown command whose argument has neither quotes, backslashes nor a tilde in it, and is
parted, is offered entries of the directory that the line has in front of the splice offset, if that
can be read as it is read. -/
theorem offers_entries_of_spliced_directory (context : Context) {world : World} {text : Text}
    (hcommand : (parseLine text).2.command = .other)
    (hargument : ∀ c ∈ (parseLine text).2.line.drop (parseLine text).2.position.toNat,
      c ∉ ['\'', '"', '\\', '~'])
    (hparted : world.Parted (parseLine text).2.fragment) (hworking : world.workingDirectory ≠ []) :
    let request := (parseLine text).2
    ∃ (cut : Nat) (matched : Matches),
      (context.complete? world request).run context.noMatches = .ok (.ok cut) matched ∧
      cut ≤ request.line.length ∧
      let front := (request.line.take cut).drop request.position.toNat
      (matched.echo.isSome ↔ ∃ children, world.list (context.readAs world front) = .ok children) ∧
      ∀ children, world.list (context.readAs world front) = .ok children →
        world.list (context.denoted world front) = .ok children ∧
        ∀ candidate ∈ matched.candidates,
          ∃ name ∈ ['.'] :: ['.', '.'] :: children.map (·.1),
            candidate.text = name ∨ candidate.text = name ++ ['/'] := by
  obtain ⟨line, hrequest⟩ : ∃ line, (parseLine text).2 = .ofLine .other line :=
    ⟨argumentText text, congrArg (Request.ofLine · (argumentText text)) hcommand⟩
  rw [hrequest] at hargument hparted ⊢
  change ∀ c ∈ line.drop (argumentStart line), _ at hargument
  have hbare : Bare (line.drop (argumentStart line)) := Bare.of_excludes (by simp) hargument
  have htilde := Request.head?_fragment_ne_tilde .other hbare fun hmem =>
    hargument '~' hmem (by simp)
  obtain ⟨hstart, hle, hfront⟩ := Request.pathStart_ofLine_bare .other hbare
  obtain ⟨matched, hrun, hcomplete⟩ :=
    context.complete?_other world (Request.stopsAtQuote_ofLine_bare .other hbare) htilde
  rw [hstart] at hrun
  refine ⟨_, matched, hrun, hle, ?_⟩
  intro front
  have hread : context.readAs world front =
      context.browser.directoryOf world (Request.ofLine .other line).fragment none := by
    rw [context.directoryOf_of_parted hparted htilde, ← hfront]
    rfl
  refine ⟨?_, fun children hchildren => ⟨context.list_denoted hworking hchildren, ?_⟩⟩
  · rw [hread]
    exact Browser.isSome_echo_of_complete rfl htilde (by simp) hcomplete
  · rw [hread] at hchildren
    exact Browser.entries_of_complete rfl htilde (by simp) hchildren hcomplete

theorem offers_entries_of_spliced_directory_variable :
    let world : World :=
      { environment := [("D".toList, "/d".toList)]
        disk := ({} : Disk).put "/d/foo".toList (.file [] false) }
    let context : Context := { lexicon := [], currentDirectory := some "/w".toList }
    let request := (parseLine "edit $D/f".toList).2
    ∃ matched, (context.complete? world request).run context.noMatches = .ok (.ok 3) matched ∧
      matched.candidates = [⟨"foo".toList, .path⟩] ∧
      ∃ children, world.list (context.denoted world "$D/".toList) = .ok children ∧
        ∃ name ∈ ['.'] :: ['.', '.'] :: children.map (·.1),
          "foo".toList = name ∨ "foo".toList = name ++ ['/'] := by
  intro world context request
  have hparted : world.Parted request.fragment :=
    ⟨fun hbrace => absurd hbrace (by decide), by decide⟩
  have hargument : ∀ c ∈ "$D/f".toList, c ∉ ['\'', '"', '\\', '~'] := by simp
  obtain ⟨cut, matched, hrun, -, -, hentries⟩ :=
    offers_entries_of_spliced_directory context (rfl : request.command = .other) hargument hparted
      (by decide)
  have hevaluated : ∃ matched, (context.complete? world request).run context.noMatches =
      .ok (.ok 3) matched ∧ matched.candidates = [⟨"foo".toList, .path⟩] := ⟨_, rfl, by decide⟩
  obtain ⟨found, hfound, hcandidates⟩ := hevaluated
  obtain ⟨hcut, rfl⟩ := EStateM.Result.ok.inj (hrun.symm.trans hfound)
  obtain rfl : cut = 3 := Int.ofNat.inj (Except.ok.inj hcut)
  have hread : ∃ children, world.list (context.readAs world "$D/".toList) = .ok children :=
    ⟨_, rfl⟩
  obtain ⟨children, hchildren⟩ := hread
  obtain ⟨hlist, hnames⟩ := hentries children hchildren
  exact ⟨matched, hfound, hcandidates, children, hlist,
    hnames _ (by rw [hcandidates]; exact List.mem_singleton_self _)⟩

/-- A value with a slash, and braces around a slash: what is offered is an entry of `/d`, and goes
in where the line names another directory. -/
theorem not_offers_entries_of_value :
    let context : Context := { lexicon := [], currentDirectory := some "/w".toList }
    let disk := (({} : Disk).put "/d/fo".toList (.file [] false)).put "/w".toList (.directory true)
    (let world : World := { environment := [("X".toList, "/d/f".toList)], disk }
    let request := (parseLine "edit $X".toList).2
    (∃ matched, (context.complete? world request).run context.noMatches = .ok (.ok 0) matched ∧
      matched.candidates = [⟨"fo".toList, .path⟩]) ∧
      world.list (context.denoted world []) = .ok []) ∧
    let world : World := { environment := [("a/b".toList, "/d/f".toList)], disk }
    let request := (parseLine "edit $\x7ba/b\x7d".toList).2
    (∃ matched, (context.complete? world request).run context.noMatches = .ok (.ok 4) matched ∧
      matched.candidates = [⟨"fo".toList, .path⟩]) ∧
      world.list (context.denoted world "$\x7ba/".toList) = .error .missing :=
  ⟨⟨⟨_, rfl, by decide⟩, rfl⟩, ⟨_, rfl, by decide⟩, rfl⟩

end PaneCompletion
