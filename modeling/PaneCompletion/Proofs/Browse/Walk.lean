import PaneCompletion.Proofs.Context.Returns
import PaneCompletion.Proofs.Matches.Adding
import PaneCompletion.Proofs.Text.Offset
import PaneCompletion.Proofs.World.Expansion

/-!
# Reading a directory for a fragment

A fragment is completed in one of three ways: a tilde and a name get the directory they stand for, a
directory that cannot be read gives the typed text back, and from one that is read its entries are
offered. Only the last way leaves an echo, and the echo is what the names were matched with
(`Browser.allowed_complete_echoed`).

Which directory is read, and what the names are matched with, is decided once the references in the
fragment are replaced. The fragment itself can be cut at its last slash only if it is parted there
(`World.Parted`): no braces reach across the slash, and no value behind it brings in another one.

1. the three ways;
2. entries on offer;
3. what is echoed;
4. parted fragments.
-/

namespace PaneCompletion

/-! ## The three ways -/

/-- The entries of a directory with some children. -/
def Entry.among (world : World) (directory : Text) (children : List (Text × Node)) : List Entry :=
  ⟨['.'], true⟩ :: ⟨['.', '.'], true⟩ ::
    children.map fun (name, node) =>
      { name, isDirectory := leadsIn world (Path.joined directory name) node }

theorem Entry.names_among (world : World) (directory : Text) (children : List (Text × Node)) :
    (among world directory children).map (·.name) =
      ['.'] :: ['.', '.'] :: children.map (·.1) := by
  simp [among]

theorem Entry.inDirectory_eq (world : World) (directory : Text) :
    inDirectory world directory = (world.list directory).map (among world directory) := by
  rw [inDirectory]
  cases world.list directory <;> rfl

namespace Browser

variable {browser : Browser} {world : World} {fragment : Text} {filter : EntryFilter}
  {base : Option Text}

/-- The directory in which a fragment is completed. -/
def directoryOf (browser : Browser) (world : World) (fragment : Text) (base : Option Text) : Text :=
  browser.resolve world base (browser.split world fragment).1

theorem complete_of_tildeWord (h : isTildeWord fragment = true) :
    browser.complete world fragment filter base =
      Filling.addAll [browser.homeCandidate world fragment] :=
  if_pos h

theorem complete_of_error (h : isTildeWord fragment = false) {error : LookupError}
    (hlist : world.list (browser.directoryOf world fragment base) = .error error) :
    browser.complete world fragment filter base =
      Filling.addAll [⟨(browser.split world fragment).2, .path⟩] := by
  have hentries : Entry.inDirectory world (browser.resolve world base
      (browser.split world fragment).1) = .error error := by
    rw [Entry.inDirectory_eq]
    exact congrArg (Except.map _) hlist
  rw [complete, if_neg (by simp [h])]
  simp only [hentries]

/-- What is done with a directory that is read. -/
theorem complete_of_list (h : isTildeWord fragment = false) {children : List (Text × Node)}
    (hlist : world.list (browser.directoryOf world fragment base) = .ok children) :
    browser.complete world fragment filter base =
      let directory := browser.directoryOf world fragment base
      let name := (browser.split world fragment).2
      (do
        Filling.addAll (browser.candidatesAmong world directory name filter
          (Entry.among world directory children))
        Filling.finishGroup
        if filter ≠ .executables then Filling.setEcho ⟨name, .path⟩) := by
  have hentries : Entry.inDirectory world (browser.resolve world base
      (browser.split world fragment).1) =
        .ok (Entry.among world (browser.directoryOf world fragment base) children) := by
    rw [Entry.inDirectory_eq]
    exact congrArg (Except.map _) hlist
  rw [complete, if_neg (by simp [h])]
  simp only [hentries]
  rfl

theorem complete_of_ok (h : isTildeWord fragment = false) {children : List (Text × Node)}
    (hlist : world.list (browser.directoryOf world fragment base) = .ok children)
    (hfilter : filter ≠ .executables) :
    browser.complete world fragment filter base =
      let directory := browser.directoryOf world fragment base
      let name := (browser.split world fragment).2
      Filling.offer
        (browser.candidatesAmong world directory name filter
          (Entry.among world directory children))
        ⟨name, .path⟩ := by
  rw [complete_of_list h hlist]
  simp only [if_pos hfilter]
  rfl

theorem isTildeWord_of_head (h : fragment.head? ≠ some '~') : isTildeWord fragment = false := by
  have hstart : Text.startsWith fragment ['~'] = false :=
    Bool.eq_false_iff.mpr (Text.startsWith_singleton_iff.not.mpr h)
  rw [isTildeWord, hstart, Bool.false_and]

/-! ## Entries on offer -/

/-- What is offered is the name of an entry, or that name and a slash. -/
theorem text_of_mem_candidatesAmong {directory name : Text} {entries : List Entry}
    {candidate : Candidate}
    (h : candidate ∈ browser.candidatesAmong world directory name filter entries) :
    ∃ entry ∈ entries, candidate.text = entry.name ∨ candidate.text = entry.name ++ ['/'] := by
  obtain ⟨entry, hentry, rfl⟩ := List.mem_map.mp h
  refine ⟨entry, (List.mem_filter.mp hentry).1, ?_⟩
  rw [Entry.candidate]
  split
  · exact .inr rfl
  · exact .inl rfl

/-- What is offered in a directory that is read are its entries. -/
theorem entries_of_complete {m m' : Matches} {u : Unit} {children : List (Text × Node)}
    (hempty : m.candidates = []) (htilde : fragment.head? ≠ some '~')
    (hfilter : filter ≠ .executables)
    (hlist : world.list (browser.directoryOf world fragment base) = .ok children)
    (h : browser.complete world fragment filter base m = .ok u m') :
    ∀ candidate ∈ m'.candidates, ∃ name ∈ ['.'] :: ['.', '.'] :: children.map (·.1),
      candidate.text = name ∨ candidate.text = name ++ ['/'] := by
  intro candidate hmem
  rw [complete_of_ok (isTildeWord_of_head htilde) hlist hfilter] at h
  have hoffered := (Filling.mem_candidates_offer h hmem).resolve_left (by simp [hempty])
  obtain ⟨entry, hentry, htext⟩ := text_of_mem_candidatesAmong hoffered
  refine ⟨entry.name, ?_, htext⟩
  rw [← Entry.names_among world (browser.directoryOf world fragment base)]
  exact List.mem_map_of_mem hentry

/-- A name is offered for its beginning in a directory that has it. -/
theorem text_mem_candidatesAmong {directory name beginning : Text}
    {children : List (Text × Node)} {node : Node} (hcase : browser.settings.ignoreCase = false)
    (hentry : (name, node) ∈ children) (hbegins : beginning <+: name) (hne : beginning ≠ []) :
    (if Entry.leadsIn world (Path.joined directory name) node then name ++ ['/'] else name) ∈
      (browser.candidatesAmong world directory beginning .all
        (Entry.among world directory children)).map (·.text) := by
  let entry : Entry := ⟨name, Entry.leadsIn world (Path.joined directory name) node⟩
  have hmem : entry ∈ Entry.among world directory children :=
    List.mem_cons_of_mem _ (List.mem_cons_of_mem _ (List.mem_map.mpr ⟨(name, node), hentry, rfl⟩))
  have hoffered : Entry.isOffered world false directory beginning .all entry = true := by
    have hstarts : Text.startsWith name beginning = true := List.isPrefixOf_iff_prefix.mpr hbegins
    have hempty : beginning.isEmpty = false := by simpa using hne
    simp [Entry.isOffered, Entry.nameMatches, Entry.passes, entry, hstarts, hempty]
  refine List.mem_map.mpr ⟨Entry.candidate .all entry, ?_, ?_⟩
  · rw [candidatesAmong, hcase]
    exact List.mem_map_of_mem (List.mem_filter.mpr ⟨hmem, hoffered⟩)
  · cases hleads : Entry.leadsIn world (Path.joined directory name) node <;>
      simp [Entry.candidate, entry, hleads]

/-! ## What is echoed -/

/-- What is echoed when a fragment is completed. -/
def echoed (browser : Browser) (world : World) (fragment : Text) (filter : EntryFilter)
    (base : Option Text) : Option Text :=
  if isTildeWord fragment ∨ filter = .executables then none
  else match world.list (browser.directoryOf world fragment base) with
  | .error _ => none
  | .ok _ => some (browser.split world fragment).2

theorem eq_of_echoed {name : Text} (h : browser.echoed world fragment filter base = some name) :
    name = (browser.split world fragment).2 := by
  unfold echoed at h
  split at h
  · cases h
  · split at h
    · cases h
    · exact (Option.some.inj h).symm

theorem allowed_complete_echoed (browser : Browser) (world : World) (fragment : Text)
    (filter : EntryFilter) (base : Option Text) :
    Filling.Allowed (browser.complete world fragment filter base)
      (·.echo.map (·.text) = browser.echoed world fragment filter base) := by
  have hnone : ∀ m : Matches, m.echo = none → m.echo.map (·.text) = none := by
    intro m hm
    rw [hm]
    rfl
  unfold echoed
  split
  · next hsilent =>
    cases htilde : isTildeWord fragment with
    | true =>
      rw [complete_of_tildeWord htilde]
      exact (Filling.allowed_addAll _).mono hnone
    | false =>
      have hfilter : filter = .executables := hsilent.resolve_left (by simp [htilde])
      exact (browser.allowed_complete world fragment filter base).mono
        fun m hm => hnone m (hm hfilter)
  · next hloud =>
    obtain ⟨htilde, hfilter⟩ := not_or.mp hloud
    rw [Bool.not_eq_true] at htilde
    split
    · next error hlist =>
      rw [complete_of_error htilde hlist]
      exact (Filling.allowed_addAll _).mono hnone
    · next children hlist =>
      rw [complete_of_ok htilde hlist hfilter]
      refine (Filling.allowed_offer _ _).mono fun m hm => ?_
      rw [hm]
      rfl

/-- A fragment without a tilde leaves an echo exactly where its directory is read. -/
theorem isSome_echo_of_complete {m m' : Matches} {u : Unit} (hm : m.echo = none)
    (htilde : fragment.head? ≠ some '~') (hfilter : filter ≠ .executables)
    (h : browser.complete world fragment filter base m = .ok u m') :
    m'.echo.isSome ↔
      ∃ children, world.list (browser.directoryOf world fragment base) = .ok children := by
  have hecho := (browser.allowed_complete_echoed world fragment filter base).of_run hm h
  rw [← Option.isSome_map (f := (·.text)), hecho]
  rw [echoed, if_neg (by simp [isTildeWord_of_head htilde, hfilter])]
  cases world.list (browser.directoryOf world fragment base) <;> simp

end Browser

/-! ## Parted fragments -/

/-- A fragment's text as far as its last slash and the name behind it are read apart: braces do not
reach from one into the other, and no reference in the name brings in a slash. -/
structure World.Parted (world : World) (fragment : Text) : Prop where
  closes : '}' ∈ fragment.drop (Text.reach '/' fragment) →
    Closes (fragment.take (Text.reach '/' fragment))
  flat : '/' ∉ world.expandVariables (fragment.drop (Text.reach '/' fragment))

/-- Without references there is nothing to replace. -/
theorem World.parted_of_not_mem {fragment : Text} (h : '$' ∉ fragment) (world : World) :
    world.Parted fragment where
  closes _ := closes_of_not_mem fun hmem => h (List.mem_of_mem_take hmem)
  flat := by
    rw [expandVariables_of_not_mem fun hmem => h (List.mem_of_mem_drop hmem)]
    exact Text.not_mem_drop_reach '/' fragment

/-- A parted fragment is completed in the directory of its text up to the last slash. -/
theorem Browser.split_of_parted {fragment : Text} {world : World} (h : world.Parted fragment)
    (htilde : fragment.head? ≠ some '~') (browser : Browser) :
    browser.split world fragment =
      if Text.reach '/' fragment = 0 then (['.'], fragment)
      else (world.expandVariables (fragment.take (Text.reach '/' fragment)),
        world.expandVariables (fragment.drop (Text.reach '/' fragment))) := by
  obtain ⟨hcloses, hflat⟩ := h
  rw [split, World.expandTilde_of_head htilde]
  cases hlast : Text.lastIndex? '/' fragment with
  | none =>
    have hreach : Text.reach '/' fragment = 0 := by rw [Text.reach, hlast]
    rw [hreach, List.drop_zero] at hflat
    simp only [Text.lastIndex?_eq_none_iff.mpr hflat, if_pos hreach]
  | some i =>
    obtain ⟨front, name, rfl, -, hname⟩ := Text.exists_of_lastIndex? hlast
    rw [Text.reach_append hname, List.append_cons, List.take_left' (by simp),
      List.drop_left' (by simp)] at hcloses ⊢
    rw [Text.reach_append hname, List.append_cons, List.drop_left' (by simp)] at hflat
    obtain ⟨value, hfront, hwhole⟩ := world.expandVariables_cut hcloses
    rw [← List.append_cons, hwhole, hfront, if_neg (Nat.succ_ne_zero _)]
    simp only [Text.lastIndex?_append hflat]
    rw [List.append_cons, List.take_left' (by simp), List.drop_left' (by simp)]

/-- What stands in a text up to its last slash, or a dot where there is none. -/
def Browser.frontOf (fragment : Text) : Text :=
  if Text.reach '/' fragment = 0 then ['.'] else fragment.take (Text.reach '/' fragment)

/-- Without references and a tilde a fragment is cut behind its last slash. -/
theorem Browser.split_of_not_mem {fragment : Text} (hdollar : '$' ∉ fragment)
    (htilde : fragment.head? ≠ some '~') (browser : Browser) (world : World) :
    browser.split world fragment =
      (frontOf fragment, fragment.drop (Text.reach '/' fragment)) := by
  have hfront := World.expandVariables_of_not_mem
    (fun hmem => hdollar (List.mem_of_mem_take (i := Text.reach '/' fragment) hmem)) world
  have hback := World.expandVariables_of_not_mem
    (fun hmem => hdollar (List.mem_of_mem_drop (i := Text.reach '/' fragment) hmem)) world
  rw [split_of_parted (World.parted_of_not_mem hdollar world) htilde, frontOf]
  split
  · next hreach => rw [hreach, List.drop_zero]
  · rw [hfront, hback]

end PaneCompletion
