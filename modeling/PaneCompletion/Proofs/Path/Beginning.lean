import PaneCompletion.Proofs.Text.LowerPieces
import PaneCompletion.World.Home

/-!
# Beginnings longer than the path

Whether a path has a beginning is decided on as many of its characters as the beginning has and,
where these agree, on the character behind them. A path that is shorter than the beginning has no
character there. Texts that agree as they are written have one length, so on POSIX it never comes to
that. In lower case they need not: a capital I with a dot above becomes two characters, and a path
with more of these than the beginning can agree with it and be the shorter one
(`writtenShorter_iff`). Exactly such paths are left without an answer, and likewise directories of
which the home directory is such a beginning (`answers_iff_not_writtenShorter`).

1. paths written shorter than a beginning;
2. tests that look past the end;
3. answers.
-/

namespace PaneCompletion.Path

/-! ## Paths written shorter than a beginning -/

/-- On Windows the path and the stem of a beginning are the same name, and the path has more capital
I's with a dot above, each one character where lower case has two. -/
def WrittenShorter (os : Platform) (path stem : Text) : Prop :=
  os = .windows ∧ Text.lower path = Text.lower stem ∧ stem.count '\u0130' < path.count '\u0130'

instance (os : Platform) (path stem : Text) : Decidable (WrittenShorter os path stem) :=
  inferInstanceAs (Decidable (_ ∧ _ ∧ _))

variable {os : Platform} {path stem beginning home directory : Text}

/-- Of two texts that name the same file, one is the shorter exactly if it has more capital I's with
a dot above, and only Windows has such a pair. -/
theorem writtenShorter_iff :
    WrittenShorter os path stem ↔ os.same path stem = true ∧ path.length < stem.length := by
  cases os with
  | posix =>
    refine iff_of_false (fun h => nomatch h.1) ?_
    rintro ⟨hsame, hshorter⟩
    obtain rfl : path = stem := by simpa [Platform.same, Platform.fold] using hsame
    exact Nat.lt_irrefl _ hshorter
  | windows =>
    have hsame : Platform.windows.same path stem = true ↔ Text.lower path = Text.lower stem := by
      simp [Platform.same, Platform.fold]
    rw [WrittenShorter, eq_self, true_and, hsame]
    refine and_congr_right fun hlower => ?_
    -- each has the length of the lower case they share, less one for each of its own capital I's
    have hlength := congrArg List.length hlower
    rw [Text.length_lower, Text.length_lower] at hlength
    omega

theorem not_writtenShorter_nil : ¬WrittenShorter os path [] := by
  rw [writtenShorter_iff]
  rintro ⟨-, hshorter⟩
  exact Nat.not_lt_zero _ hshorter

/-! ## Tests that look past the end -/

theorem startsWith_eq_error_iff :
    startsWith os path beginning = .error .pastEnd ↔
      WrittenShorter os path (dropSlash beginning) := by
  rw [startsWith, writtenShorter_iff]
  generalize dropSlash beginning = stem
  rcases Nat.lt_trichotomy path.length stem.length with hshorter | hequal | hlonger
  · -- the whole path is compared, and no character stands behind it
    have hwhole : path.take stem.length = path := List.take_of_length_le hshorter.le
    have hnone : path[stem.length]? = none := List.getElem?_eq_none hshorter.le
    simp [hwhole, hnone, hshorter, hshorter.ne]
  · refine iff_of_false ?_ (fun h => h.2.ne hequal)
    simp only [hequal, if_true]
    split <;> simp
  · have hnext : path[stem.length]? = some path[stem.length] := List.getElem?_eq_getElem hlonger
    refine iff_of_false ?_ (fun h => h.2.not_gt hlonger)
    simp only [hnext, hlonger.ne', if_false]
    split <;> simp

/-- The home directory has lost a slash at its end before it is tested for, and loses another one in
the test. -/
theorem abbreviateHome_eq_error_iff :
    abbreviateHome os home directory = .error .pastEnd ↔
      WrittenShorter os directory (dropSlash (dropSlash home)) := by
  rw [abbreviateHome]
  by_cases hnone : dropSlash home = []
  · rw [hnone]
    refine iff_of_false ?_ not_writtenShorter_nil
    simp [pure, Except.pure, bind, Except.bind]
  · rw [← startsWith_eq_error_iff, if_neg (by simpa using hnone)]
    cases startsWith os directory (dropSlash home) with
    | error error => simp [bind, Except.bind]
    | ok inside => simp [pure, Except.pure, bind, Except.bind]

/-! ## Answers -/

/-- Looking past the end is the only thing that can go wrong. -/
theorem exists_ok_iff {α : Type} {result : Except Error α} :
    (∃ answer, result = .ok answer) ↔ result ≠ .error .pastEnd := by
  cases result with
  | ok answer => simp
  | error error =>
    cases error
    simp

/-- On either platform and for all texts it is answered whether a path has a beginning, and a
directory is shown with its home directory abbreviated, unless the path is written shorter than the
beginning, or the directory shorter than the home directory. -/
theorem answers_iff_not_writtenShorter (os : Platform) (path beginning home directory : Text) :
    ((∃ inside, startsWith os path beginning = .ok inside) ↔
      ¬WrittenShorter os path (dropSlash beginning)) ∧
    ((∃ text, abbreviateHome os home directory = .ok text) ↔
      ¬WrittenShorter os directory (dropSlash (dropSlash home))) := by
  rw [exists_ok_iff, exists_ok_iff]
  exact ⟨not_congr startsWith_eq_error_iff, not_congr abbreviateHome_eq_error_iff⟩

/-- A name has no answer for its own spelling in lower case. -/
theorem not_startsWith_answers :
    let name := "C:/\u0130".toList
    let lower := "C:/i\u0307".toList
    WrittenShorter .windows name lower ∧
      startsWith .windows name lower = .error .pastEnd ∧
      abbreviateHome .windows lower name = .error .pastEnd := by
  decide

end PaneCompletion.Path
