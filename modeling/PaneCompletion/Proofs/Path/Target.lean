import PaneCompletion.Proofs.Path.Relative

/-!
# Relative paths and their targets

A relative path leads from the canonical form of its base to what it reaches
(`location_canonical_relative`), and it depends on nothing else of its target. So from one base two
relative paths are the same exactly if they reach the same names. Where there is room for what is
left of a target, all of it is reached, and targets are told apart. Below a directory so deep that
the steps up leave no room, they are not: the names that do not fit are cut off.

1. where a relative path leads;
2. relative paths from one base;
3. deep directories.
-/

namespace PaneCompletion.Path

/-! ## Where a relative path leads -/

theorem location_canonical_relative {path base : Text} (hpath : isAbsolute .posix path = true)
    (hbase : isAbsolute .posix base = true) :
    location (canonical .posix base ++ relative .posix path base) =
      reached (shown base) (shown path) := by
  have hreached := names_reached (shown base) (names_shown path)
  rw [canonical_eq_shown hbase, cons_slashed, List.append_assoc, List.singleton_append, location,
    walk_append, walk_stem (names_shown base), relative_eq_way hpath hbase,
    walk_spelled (way_no_slash _ hreached), foldl_enter_way (names_shown base) hreached,
    List.reverse_reverse]

/-! ## Relative paths from one base -/

/-- From one base relative paths are the same exactly if they reach the same names. So where there
is room for what is left of both targets, they are the same only if the canonical forms are. -/
theorem relative_eq_relative_iff {base path other : Text} (hbase : isAbsolute .posix base = true)
    (hpath : isAbsolute .posix path = true) (hother : isAbsolute .posix other = true) :
    (relative .posix path base = relative .posix other base ↔
      reached (shown base) (shown path) = reached (shown base) (shown other)) ∧
    (HasRoom (shown base) (shown path) → HasRoom (shown base) (shown other) →
      relative .posix path base = relative .posix other base →
        canonical .posix path = canonical .posix other) := by
  have hiff : relative .posix path base = relative .posix other base ↔
      reached (shown base) (shown path) = reached (shown base) (shown other) := by
    constructor
    · intro hsame
      rw [← location_canonical_relative hpath hbase, hsame,
        location_canonical_relative hother hbase]
    · intro hsame
      rw [relative_eq_way hpath hbase, hsame, relative_eq_way hother hbase]
  refine ⟨hiff, fun hroom hroomOther hsame => ?_⟩
  have hreached := hiff.mp hsame
  rw [reached_eq_iff.mpr hroom, reached_eq_iff.mpr hroomOther] at hreached
  exact (canonical_eq_iff_shown hpath hother).mpr hreached

/-! ## Deep directories -/

/-- A directory so many levels deep. -/
def deep (levels : Nat) : Text := stem (List.replicate levels ['a'])

theorem names_deep (levels : Nat) : Names (List.replicate levels ['a']) := by
  intro c hc
  rw [List.eq_of_mem_replicate hc]
  decide

theorem location_deep (levels : Nat) : location (deep levels) = List.replicate levels ['a'] :=
  location_stem (names_deep levels)

theorem shown_deep {levels : Nat} (h : 2 * levels + 1 < limit) :
    shown (deep levels) = List.replicate levels ['a'] := by
  rw [← location_deep, shown_eq_location_iff, location_deep]
  simp [slashed]
  omega

/-- Another name beside the first level shares nothing with a deep directory. -/
theorem beyond_deep (levels : Nat) {name : Text} (h : name ≠ ['a']) :
    shared (List.replicate (levels + 1) ['a']) [name] = [] ∧
      beyond (List.replicate (levels + 1) ['a']) [name] = List.replicate (levels + 1) ['a'] ∧
      beyond [name] (List.replicate (levels + 1) ['a']) = [name] := by
  rw [List.replicate_succ]
  exact ⟨shared_cons_of_ne h.symm .., beyond_cons_of_ne h.symm .., beyond_cons_of_ne h ..⟩

/-- As many steps up as fit into a path leave no room for a name. -/
theorem not_relative_keeps_target :
    let base := deep 1365
    let path := "/x".toList
    let other := "/y".toList
    isAbsolute .posix base = true ∧ isAbsolute .posix path = true ∧
      isAbsolute .posix other = true ∧ Untruncated .posix base ∧ Untruncated .posix path ∧
      Untruncated .posix other ∧
      relative .posix path base = relative .posix other base ∧
      canonical .posix path ≠ canonical .posix other := by
  intro base path other
  have hbase : isAbsolute .posix base = true := rfl
  have hshown : shown base = List.replicate 1365 ['a'] := shown_deep (by decide)
  have hreached : ∀ name, name ≠ ['a'] → reached (List.replicate 1365 ['a']) [name] = [] := by
    intro name hname
    obtain ⟨hshared, hup, hdown⟩ := beyond_deep 1364 hname
    rw [reached, hshared, hup, hdown, List.length_replicate]
    simp [fitting, roomBehind, limit]
  have hsame : relative .posix path base = relative .posix other base := by
    have hpath : shown path = [['x']] := by decide
    have hother : shown other = [['y']] := by decide
    rw [relative_eq_way rfl hbase, relative_eq_way rfl hbase, hshown, hpath, hother,
      hreached ['x'] (by decide), hreached ['y'] (by decide)]
  refine ⟨hbase, rfl, rfl, ?_, by decide, by decide, hsame, by decide⟩
  rw [untruncated_iff hbase, hshown, location_deep]

theorem relative_eq_relative_iff_deep :
    relative .posix "/x".toList (deep 1364) ≠ relative .posix "/y".toList (deep 1364) := by
  have hshown : shown (deep 1364) = List.replicate 1364 ['a'] := shown_deep (by decide)
  have hroom : ∀ name : Text, name.length = 1 → name ≠ ['a'] →
      HasRoom (List.replicate 1364 ['a']) [name] := by
    intro name hone hname
    obtain ⟨-, hup, hdown⟩ := beyond_deep 1363 hname
    rw [HasRoom, hup, hdown, List.length_replicate]
    simp [hone, roomBehind, limit]
  obtain ⟨-, hkeeps⟩ := @relative_eq_relative_iff (deep 1364) "/x".toList "/y".toList rfl rfl rfl
  rw [hshown] at hkeeps
  intro hsame
  exact absurd (hkeeps (hroom ['x'] rfl (by decide)) (hroom ['y'] rfl (by decide)) hsame)
    (by decide)

end PaneCompletion.Path
