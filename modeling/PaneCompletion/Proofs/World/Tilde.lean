import PaneCompletion.Proofs.Path.Containment
import PaneCompletion.Proofs.World.Expansion

/-!
# Home directories abbreviated and written out

A directory that is the home directory, or lies in it, is shown with a tilde in its place
(`abbreviateHome_of_inside`); any other is shown as it is, without a slash at its end
(`abbreviateHome_of_outside`). Writing the tilde out leads back to the directory, and what is shown
never names the home directory of another account (`expandTilde_abbreviateHome`). A slash at the end
of a path makes no difference to where the path leads (`walk_dropSlash`), so it does not matter that
some are lost on the way.

1. slashes at the end;
2. abbreviations;
3. abbreviations written out.
-/

namespace PaneCompletion.Path

/-! ## Slashes at the end -/

theorem dropSlash_cases (text : Text) :
    text = dropSlash text ++ ['/'] ∨ Text.endsIn '/' text = false ∧ dropSlash text = text := by
  cases hends : Text.endsIn '/' text with
  | true =>
    obtain ⟨front, rfl⟩ := List.getLast?_eq_some_iff.mp (by simpa [Text.endsIn] using hends)
    exact .inl (by rw [dropSlash_append_slash])
  | false => exact .inr ⟨rfl, if_neg (by simp [hends])⟩

theorem dropSlash_cons (c : Char) {rest : Text} (hne : rest ≠ []) :
    dropSlash (c :: rest) = c :: dropSlash rest := by
  obtain ⟨d, more, rfl⟩ := List.exists_cons_of_ne_nil hne
  rw [dropSlash, dropSlash, show Text.endsIn '/' (c :: d :: more) = Text.endsIn '/' (d :: more) by
    simp [Text.endsIn]]
  split
  · rfl
  · rfl

/-- A path that does not end in two slashes has no slash left where one is dropped. -/
theorem dropSlash_dropSlash {text : Text} (h : ¬['/', '/'] <:+ text) :
    dropSlash (dropSlash text) = dropSlash text := by
  rcases dropSlash_cases (dropSlash text) with hends | ⟨-, heq⟩
  · rcases dropSlash_cases text with htext | ⟨-, heq⟩
    · rw [hends, List.append_assoc] at htext
      exact absurd ⟨_, htext.symm⟩ h
    · rw [heq, heq]
  · exact heq

theorem walk_dropSlash (stack : List Text) (text : Text) :
    walk stack (dropSlash text) = walk stack text := by
  rcases dropSlash_cases text with htext | ⟨-, heq⟩
  · have hwalk := walk_append stack (dropSlash text) []
    rw [← htext] at hwalk
    exact hwalk.symm
  · rw [heq]

theorem location_dropSlash (text : Text) : location (dropSlash text) = location text := by
  rw [location, walk_dropSlash, location]

/-! ## Abbreviations -/

variable {home directory : Text}

/-- A directory outside the home directory loses one slash at its end, unless it is the root. -/
theorem abbreviateHome_of_outside (hslashes : ¬['/', '/'] <:+ home)
    (h : dropSlash home ≠ [] →
      ¬(directory = dropSlash home ∨ dropSlash home ++ ['/'] <+: directory)) :
    abbreviateHome .posix home directory =
      .ok (if directory = ['/'] then directory else dropSlash directory) := by
  rw [abbreviateHome]
  by_cases hnone : dropSlash home = []
  · simp [hnone, isRoot, bind, Except.bind, pure, Except.pure]
  · have hstarts : startsWith .posix directory (dropSlash home) = .ok false := by
      rw [startsWith_posix, dropSlash_dropSlash hslashes, decide_eq_false (h hnone)]
    simp [hnone, hstarts, isRoot, bind, Except.bind, pure, Except.pure]

/-- Inside the home directory a tilde stands in its place. -/
theorem abbreviateHome_of_inside (hslashes : ¬['/', '/'] <:+ home) (hsome : dropSlash home ≠ [])
    {inner : Text} (hinner : inner = [] ∨ ['/'] <+: inner) :
    abbreviateHome .posix home (dropSlash home ++ inner) = .ok (dropSlash ('~' :: inner)) := by
  have hstarts : startsWith .posix (dropSlash home ++ inner) (dropSlash home) = .ok true := by
    rw [startsWith_posix, dropSlash_dropSlash hslashes]
    simpa using hinner
  rw [abbreviateHome]
  simp [hsome, hstarts, isRoot, bind, Except.bind, pure, Except.pure]

/-! ## Abbreviations written out -/

theorem isAbsolute_dropSlash {text : Text} (h : isAbsolute .posix text = true)
    (hne : dropSlash text ≠ []) : isAbsolute .posix (dropSlash text) = true := by
  rcases dropSlash_cases text with htext | ⟨-, heq⟩
  · rw [htext] at h
    exact isAbsolute_of_append h hne
  · rwa [heq]

/-- What is shown of an absolute directory outside the home directory is absolute and leads to
it. -/
theorem exists_abbreviation_outside (hslashes : ¬['/', '/'] <:+ home)
    (hdirectory : isAbsolute .posix directory = true)
    (h : dropSlash home ≠ [] →
      ¬(directory = dropSlash home ∨ dropSlash home ++ ['/'] <+: directory)) :
    ∃ text, abbreviateHome .posix home directory = .ok text ∧ isAbsolute .posix text = true ∧
      location text = location directory := by
  refine ⟨_, abbreviateHome_of_outside hslashes h, ?_⟩
  split
  · exact ⟨hdirectory, rfl⟩
  · next hroot =>
    refine ⟨isAbsolute_dropSlash hdirectory fun hnil => hroot ?_, location_dropSlash directory⟩
    rcases dropSlash_cases directory with heq | ⟨-, heq⟩
    · rwa [hnil] at heq
    · rw [← heq, hnil] at hdirectory
      cases hdirectory

/-- What a tilde with a path behind it is written out to leads where the path leads from the home
directory. -/
theorem equal_expandTilde (world : World) (hhome : isAbsolute .posix home = true)
    (hsome : dropSlash home ≠ []) {inner : Text} (hinner : inner = [] ∨ ['/'] <+: inner) :
    equal .posix (world.expandTilde home (dropSlash ('~' :: inner))) (dropSlash home ++ inner) =
      true := by
  have hstem := isAbsolute_dropSlash hhome hsome
  rcases hinner with rfl | ⟨rest, rfl⟩
  · rw [List.append_nil]
    exact equal_of_location hhome hstem (location_dropSlash home).symm
  · rw [List.singleton_append]
    by_cases hrest : rest = []
    · -- the slash is dropped, so the home directory is written out whole
      subst hrest
      refine equal_of_location hhome (isAbsolute_append hstem _) ?_
      rw [location, location, walk_append, walk_dropSlash]
      rfl
    · rw [dropSlash_cons '~' (List.cons_ne_nil '/' rest), dropSlash_cons '/' hrest]
      have hexpand : world.expandTilde home ('~' :: '/' :: dropSlash rest) =
          dropSlash home ++ '/' :: dropSlash rest := rfl
      rw [hexpand]
      refine equal_of_location (isAbsolute_append hstem _) (isAbsolute_append hstem _) ?_
      rw [location, location, walk_append, walk_append, walk_dropSlash _ rest]

/-- What is shown of an absolute directory begins with a tilde only if the tilde stands for the home
directory, and the tilde written out leads back to the directory. -/
theorem expandTilde_abbreviateHome (world : World) (hhome : isAbsolute .posix home = true)
    (hslashes : ¬['/', '/'] <:+ home) (hdirectory : isAbsolute .posix directory = true) :
    ∃ text, abbreviateHome .posix home directory = .ok text ∧
      (['~'] <+: text → text = ['~'] ∨ ['~', '/'] <+: text) ∧
      equal .posix (world.expandTilde home text) directory = true := by
  by_cases hinside : dropSlash home ≠ [] ∧
      (directory = dropSlash home ∨ dropSlash home ++ ['/'] <+: directory)
  · obtain ⟨hsome, hbegins⟩ := hinside
    obtain ⟨inner, rfl, hinner⟩ : ∃ inner, directory = dropSlash home ++ inner ∧
        (inner = [] ∨ ['/'] <+: inner) := by
      rcases hbegins with hself | ⟨rest, rfl⟩
      · exact ⟨[], by rw [List.append_nil, ← hself], .inl rfl⟩
      · exact ⟨'/' :: rest, by simp, .inr (by simp)⟩
    refine ⟨_, abbreviateHome_of_inside hslashes hsome hinner, fun _ => ?_,
      equal_expandTilde world hhome hsome hinner⟩
    rcases hinner with rfl | ⟨rest, rfl⟩
    · exact .inl rfl
    · by_cases hrest : rest = []
      · subst hrest
        exact .inl rfl
      · rw [List.singleton_append, dropSlash_cons '~' (List.cons_ne_nil '/' rest),
          dropSlash_cons '/' hrest]
        exact .inr (by simp)
  · obtain ⟨text, htext, hrooted, hlocation⟩ :=
      exists_abbreviation_outside hslashes hdirectory (not_and.mp hinside)
    obtain ⟨rest, rfl⟩ : ∃ rest, text = '/' :: rest := by
      cases text with
      | nil => cases hrooted
      | cons c rest =>
        obtain rfl : '/' = c := by simpa [isAbsolute, Text.startsWith] using hrooted
        exact ⟨rest, rfl⟩
    refine ⟨_, htext, fun htilde => absurd htilde (by simp), ?_⟩
    rw [World.expandTilde_of_head (by simp)]
    exact equal_of_location hrooted hdirectory hlocation

theorem expandTilde_abbreviateHome_slashes :
    let world : World := { accounts := [{ name := "ann".toList, home := "/root".toList }] }
    let home := "/home/ann/".toList
    let inside := "/home/ann//notes//".toList
    let beside := "/home/annex/~ann/".toList
    abbreviateHome .posix home inside = .ok "~//notes/".toList ∧
      equal .posix (world.expandTilde home "~//notes/".toList) inside = true ∧
      abbreviateHome .posix home beside = .ok "/home/annex/~ann".toList ∧
      equal .posix (world.expandTilde home "/home/annex/~ann".toList) beside = true := by
  intro world home inside beside
  have hinside : abbreviateHome .posix home inside = .ok "~//notes/".toList := by decide
  have hbeside : abbreviateHome .posix home beside = .ok "/home/annex/~ann".toList := by decide
  obtain ⟨text, htext, -, hback⟩ :=
    @expandTilde_abbreviateHome home inside world (by decide) (by decide) (by decide)
  obtain ⟨other, hother, -, hotherBack⟩ :=
    @expandTilde_abbreviateHome home beside world (by decide) (by decide) (by decide)
  obtain rfl : "~//notes/".toList = text := Except.ok.inj (hinside.symm.trans htext)
  obtain rfl : "/home/annex/~ann".toList = other := Except.ok.inj (hbeside.symm.trans hother)
  exact ⟨hinside, hback, hbeside, hotherBack⟩

end PaneCompletion.Path
