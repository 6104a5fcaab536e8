import PaneCompletion.Proofs.Path.Relative

/-!
# Containment

A path is inside a directory when the text of the directory, without a slash at its end, is all of
the path or is followed by a slash in it (`startsWith_posix`). A name ends where a slash stands, so
of canonical forms this says that the names of the directory are the first names of the path
(`startsWith_canonical`). The relative path then has nothing to climb out of, and it does not begin
with a step up, whatever the names are (`head?_pieces_relative`).

1. texts that begin others;
2. canonical forms inside others;
3. the first component of a relative path.
-/

namespace PaneCompletion.Path

open Text (pieces)

/-! ## Texts that begin others -/

/-- Where names are compared as they are written, there is always an answer. -/
theorem startsWith_posix (path beginning : Text) :
    startsWith .posix path beginning = .ok (decide
      (path = dropSlash beginning ∨ dropSlash beginning ++ ['/'] <+: path)) := by
  rw [startsWith]
  generalize dropSlash beginning = stem
  by_cases hsame : path.take stem.length = stem
  · -- the first character behind the beginning decides, where there is one
    obtain ⟨rest, rfl⟩ := List.prefix_iff_eq_take.mpr hsame.symm
    cases rest with
    | nil => simp [Platform.same, Platform.fold]
    | cons c more => simp [Platform.same, Platform.fold, eq_comm, beq_eq_decide]
  · have hnot : ¬stem <+: path := fun h => hsame (List.prefix_iff_eq_take.mp h).symm
    have hfalse : ¬(path = stem ∨ stem ++ ['/'] <+: path) := by
      rintro (rfl | h)
      · exact hnot List.prefix_rfl
      · exact hnot ((List.prefix_append ..).trans h)
    simp [Platform.same, Platform.fold, hsame, hfalse]

/-! ## Canonical forms inside others -/

theorem slashed_prefix_iff {a b : List Text} (ha : Parts a) (hb : Parts b) :
    slashed a <+: slashed b ↔ a <+: b := by
  constructor
  · rintro ⟨text, h⟩
    refine ⟨components text, ?_⟩
    rw [← components_slashed_append ha, h, components_slashed hb]
  · rintro ⟨rest, rfl⟩
    rw [slashed_append]
    exact List.prefix_append ..

/-- A canonical form is inside another exactly if it shows the names of the other first. -/
theorem startsWith_canonical {path base : Text} (hpath : isAbsolute .posix path = true)
    (hbase : isAbsolute .posix base = true) :
    startsWith .posix (canonical .posix path) (canonical .posix base) =
      .ok (decide (shown base <+: shown path)) := by
  have hne : '/' :: slashed (shown path) ≠ stem (shown base) := by
    intro h
    have hends := endsIn_stem (names_shown base).parts
    rw [← h, cons_slashed] at hends
    simp [Text.endsIn] at hends
  rw [startsWith_posix, canonical_eq_shown hpath, canonical_eq_shown hbase,
    cons_slashed (shown base), dropSlash_append_slash, ← cons_slashed (shown base)]
  simp [hne, slashed_prefix_iff (names_shown base).parts (names_shown path).parts]

/-! ## The first component of a relative path -/

/-- The relative path begins with a step up exactly if some name of the base is not shared. -/
theorem head?_pieces_relative {path base : Text} (hpath : isAbsolute .posix path = true)
    (hbase : isAbsolute .posix base = true) :
    (pieces '/' (relative .posix path base)).head? = some ['.', '.'] ↔
      ¬shown base <+: shown path := by
  have hreached := names_reached (shown base) (names_shown path)
  rw [relative_eq_way hpath hbase, pieces_spelled (way_no_slash _ hreached), way_reached,
    ← beyond_eq_nil_iff]
  cases hleft : beyond (shown base) (shown path) with
  | cons name more => simp [List.replicate_succ]
  | nil =>
    -- nothing to climb out of: a name comes first, or the dot that stands for none
    have hdown := ((names_shown path).beyond (shown base)).fitting (roomBehind 0)
    cases hfits : fitting (roomBehind 0) (beyond (shown path) (shown base)) with
    | nil => simp
    | cons name more =>
      rw [hfits] at hdown
      simp [hdown.of_cons.1.ne_parent]

/-- Whether a canonical form is inside another is answered for all absolute paths, and it is so
exactly if the first component of the relative path is no step up. -/
theorem startsWith_canonical_eq_relative {path base : Text}
    (hpath : isAbsolute .posix path = true) (hbase : isAbsolute .posix base = true) :
    startsWith .posix (canonical .posix path) (canonical .posix base) =
      .ok (decide ((pieces '/' (relative .posix path base)).head? ≠ some ['.', '.'])) := by
  rw [startsWith_canonical hpath hbase]
  simp only [ne_eq, head?_pieces_relative hpath hbase, not_not]

theorem startsWith_canonical_eq_relative_dots :
    let base := "/usr/x/../lib".toList
    let inside := "/usr/./lib//..bin".toList
    let beside := "/usr/lib64".toList
    relative .posix inside base = "..bin".toList ∧
      startsWith .posix (canonical .posix inside) (canonical .posix base) = .ok true ∧
      relative .posix beside base = "../lib64".toList ∧
      startsWith .posix (canonical .posix beside) (canonical .posix base) = .ok false := by
  intro base inside beside
  have hinside : relative .posix inside base = "..bin".toList := by decide +kernel
  have hbeside : relative .posix beside base = "../lib64".toList := by decide +kernel
  refine ⟨hinside, ?_, hbeside, ?_⟩
  · rw [startsWith_canonical_eq_relative (by decide) (by decide), hinside]
    decide
  · rw [startsWith_canonical_eq_relative (by decide) (by decide), hbeside]
    decide

end PaneCompletion.Path
