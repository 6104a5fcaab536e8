import PaneCompletion.Proofs.Path.Relative

/-!
# Equal paths

Paths are equal if they have the same canonical form. An absolute path leads where its steps lead,
each `..` taking back the step in front of it (`location_eq_descent`), so absolute paths are equal
exactly if their steps lead to the same names, as far as these fit into a path
(`equal_iff_descent`).

From a path to one that is equal to it there is nowhere to go. The walk along the component ends of
the one text then comes to its end (`drop_sharedEnd_self`), and a dot is left. It does not where the
text is a single character, since the first character never ends a component: a name of one
character is left and entered again.

1. where steps lead;
2. equal absolute paths;
3. the walk along one text;
4. relative paths between equal paths.
-/

namespace PaneCompletion.Path

open Text (pieces)

/-! ## Where steps lead -/

/-- The components of a path without empty ones and dots. -/
def steps (path : Text) : List Text := (pieces '/' path).filter counts

/-- Take a step below the root: up, where there is a name to leave, or down. -/
def descend (names : List Text) (step : Text) : List Text :=
  if step = ['.', '.'] then names.dropLast else names ++ [step]

/-- The names that steps from the root lead to. -/
def descent (steps : List Text) : List Text := steps.foldl descend []

theorem reverse_foldl_enter {components : List Text} (hslash : ∀ c ∈ components, '/' ∉ c)
    {stack : List Text} (hstack : Names stack) :
    (components.foldl (enter .posix true) stack).reverse =
      (components.filter counts).foldl descend stack.reverse := by
  induction components generalizing stack with
  | nil => rfl
  | cons c more ih =>
    have hc := hslash c List.mem_cons_self
    have hrest := ih (fun d hd => hslash d (List.mem_cons_of_mem _ hd)) (names_enter hstack hc)
    rw [List.foldl_cons, hrest]
    rcases enter_cases hstack hc with ⟨hstay, h⟩ | ⟨rfl, h⟩ | ⟨hname, h⟩
    · have hnot : counts c = false := by
        rcases hstay with rfl | rfl <;> rfl
      rw [h, List.filter_cons_of_neg (by simp [hnot])]
    · rw [h, List.filter_cons_of_pos (by decide), List.foldl_cons, descend, if_pos rfl,
        List.dropLast_reverse]
    · have hcounts : counts c = true := by simp [counts, hname.ne_nil, hname.ne_here]
      rw [h, List.filter_cons_of_pos hcounts, List.foldl_cons, descend, if_neg hname.ne_parent,
        List.reverse_cons]

theorem location_eq_descent (path : Text) : location path = descent (steps path) :=
  reverse_foldl_enter (fun _ hc => Text.not_mem_of_mem_pieces hc) names_nil

/-! ## Equal absolute paths -/

theorem equal_iff_canonical {a b : Text} :
    equal .posix a b = true ↔ canonical .posix a = canonical .posix b := by
  simp [equal, Platform.same, Platform.fold]

/-- Absolute paths are equal exactly if their steps lead to the same names, as far as these fit into
a path; so to the same names, where all of them do. -/
theorem equal_iff_descent {a b : Text} (ha : isAbsolute .posix a = true)
    (hb : isAbsolute .posix b = true) :
    (equal .posix a b = true ↔
      fitting (limit - 2) (descent (steps a)) = fitting (limit - 2) (descent (steps b))) ∧
    (('/' :: slashed (descent (steps a))).length < limit →
      ('/' :: slashed (descent (steps b))).length < limit →
        (equal .posix a b = true ↔ descent (steps a) = descent (steps b))) := by
  have hiff : equal .posix a b = true ↔ shown a = shown b :=
    equal_iff_canonical.trans (canonical_eq_iff_shown ha hb)
  rw [← location_eq_descent, ← location_eq_descent]
  refine ⟨hiff, fun hfits hfitsOther => ?_⟩
  rw [hiff, shown_eq_location_iff.mpr hfits, shown_eq_location_iff.mpr hfitsOther]

theorem location_cons_name {name : Text} (h : IsName name) : location ('/' :: name) = [name] := by
  have hnames : Names [name] := by simpa [Names] using h
  simpa using location_stem hnames

theorem isName_replicate {n : Nat} (h : 2 < n) : IsName (List.replicate n 'a') := by
  have hlength : ∀ text : Text, text.length ≤ 2 → List.replicate n 'a' ≠ text := by
    rintro text hshort rfl
    rw [List.length_replicate] at hshort
    omega
  refine ⟨hlength _ (by decide), hlength _ (by decide), hlength _ (by decide), fun hslash => ?_⟩
  exact absurd (List.eq_of_mem_replicate hslash) (by decide)

/-- A name that does not fit into a path is as good as none. -/
theorem equal_root_of_long {name : Text} (h : IsName name) (hlong : limit ≤ name.length + 2) :
    equal .posix ('/' :: name) ['/'] = true := by
  have hroot : shown ['/'] = [] := by decide
  rw [equal_iff_canonical, canonical_eq_iff_shown rfl rfl, hroot, shown, location_cons_name h,
    fitting, if_neg (by omega)]

theorem not_equal_iff_descent :
    let long := '/' :: List.replicate 4094 'a'
    isAbsolute .posix long = true ∧ isAbsolute .posix ['/'] = true ∧
      equal .posix long ['/'] = true ∧ descent (steps long) ≠ descent (steps ['/']) := by
  intro long
  have hname : IsName (List.replicate 4094 'a') := isName_replicate (by decide)
  have hlong : limit ≤ (List.replicate 4094 'a').length + 2 := by
    rw [List.length_replicate]
    exact Nat.le_refl _
  refine ⟨rfl, rfl, equal_root_of_long hname hlong, ?_⟩
  rw [← location_eq_descent, location_cons_name hname]
  exact List.cons_ne_nil _ _

theorem equal_iff_descent_mixed :
    equal .posix "//a/./b/../c".toList "/../a//c/".toList = true ∧
      equal .posix "/a/..c".toList "/a/../c".toList = false := by
  constructor
  · exact ((equal_iff_descent (by decide) (by decide)).2 (by decide) (by decide)).mpr (by decide)
  · rw [Bool.eq_false_iff]
    exact mt (equal_iff_descent (by decide) (by decide)).1.mp (by decide)

/-! ## The walk along one text -/

theorem sharedEnd_self (os : Platform) (text : Text) (ends : List Nat) (start : Nat) :
    sharedEnd os text text start (ends.zip ends) = ends.getLastD start := by
  induction ends generalizing start with
  | nil => rfl
  | cons e more ih =>
    rw [List.zip_cons_cons, sharedEnd, if_pos ⟨rfl, beq_self_eq_true _⟩, ih, List.getLastD_cons]

theorem getLastD_endsFrom {text : Text} (hne : text ≠ []) (hend : Text.endsIn '/' text = false)
    (start otherwise : Nat) : (endsFrom start text).getLastD otherwise = start + text.length := by
  induction text generalizing start otherwise with
  | nil => exact absurd rfl hne
  | cons c rest ih =>
    cases rest with
    | nil =>
      have hc : c ≠ '/' := by simpa [Text.endsIn] using hend
      simp [endsFrom, hc]
    | cons d more =>
      have hrest := ih (by simp) (by simpa [Text.endsIn] using hend) (start + 1)
      rw [endsFrom]
      split
      · rw [List.getLastD_cons, hrest]
        simp
        omega
      · rw [hrest]
        simp
        omega

/-- The walk comes to the end of a text that has no slash there and is not one character long. -/
theorem drop_sharedEnd_self {text : Text} (hone : text.length ≠ 1)
    (hend : Text.endsIn '/' text = false) :
    text.drop (sharedEnd .posix text text 0 ((componentEnds text).zip (componentEnds text))) =
      [] := by
  rw [sharedEnd_self, List.drop_eq_nil_iff]
  cases text with
  | nil => exact Nat.zero_le _
  | cons c rest =>
    have hne : rest ≠ [] := by
      rintro rfl
      exact hone rfl
    have hrest : Text.endsIn '/' rest = false := by
      obtain ⟨d, more, rfl⟩ := List.exists_cons_of_ne_nil hne
      simpa [Text.endsIn] using hend
    rw [componentEnds, getLastD_endsFrom hne hrest, List.length_cons]
    omega

/-! ## Relative paths between equal paths -/

theorem relative_of_canonical {path other text : Text}
    (hpath : canonical .posix path = text ++ ['/'])
    (hother : canonical .posix other = text ++ ['/']) (hone : text.length ≠ 1)
    (hend : Text.endsIn '/' text = false) : relative .posix path other = ['.'] := by
  simp only [relative, hpath, hother, dropSlash_append_slash, drop_sharedEnd_self hone hend]
  rfl

theorem canonical_singleton {c : Char} (h : IsName [c]) {capacity : Int} (hroom : 2 < capacity) :
    canonical .posix [c] capacity = [c, '/'] := by
  have hnames : Names [[c]] := by simpa [Names] using h
  have hcanonical := canonical_joined hnames (by simp) capacity
  rw [fitting, if_pos (by simp; omega), fitting] at hcanonical
  exact hcanonical

/-- A name of one character is left and entered again. -/
theorem relative_of_canonical_singleton {path other : Text} {c : Char} (h : IsName [c])
    (hpath : canonical .posix path = [c, '/']) (hother : canonical .posix other = [c, '/']) :
    relative .posix path other = ['.', '.', '/', c] := by
  have hslash : c ≠ '/' := fun hc => h.no_slash (by simp [hc])
  have hdot : c ≠ '.' := fun hc => h.ne_here (by rw [hc])
  have hdepth : depth [c, '/'] = 1 := by simp [depth, pieces, Text.onFirst, hslash, hdot]
  have htext : dropSlash [c, '/'] = [c] := dropSlash_append_slash [c]
  have hstart : Text.startsWith [c] ['/'] = false := by
    simp [Text.startsWith, List.isPrefixOf, hslash.symm]
  have hwhole := canonical_singleton h (show 2 < (limit : Int) by decide)
  have htail := canonical_singleton h (show 2 < (limit : Int) - (climb 1).length by decide)
  simp only [relative, hpath, hother, htext, componentEnds, endsFrom, List.zip_nil_left, sharedEnd,
    List.drop_zero, hwhole, hdepth, hstart, Bool.false_eq_true, if_false, htail]
  simp [onDifferentDrives, climb, dropSlash, Text.endsIn, hdot]

/-- The dot that anchors a path stands for nothing to leave. -/
theorem relative_of_canonical_here {path other : Text} (hpath : canonical .posix path = ['.', '/'])
    (hother : canonical .posix other = ['.', '/']) : relative .posix path other = ['.'] := by
  rw [relative, hpath, hother]
  decide

/-- Between equal paths the relative path is a dot, except where both are a name of one character:
that is left and entered again. -/
theorem relative_of_equal {path other : Text} (h : equal .posix path other = true) :
    (relative .posix path other = ['.'] ↔ ∀ c, canonical .posix path = [c, '/'] → c = '.') ∧
    ∀ c, canonical .posix path = [c, '/'] → c ≠ '.' →
      relative .posix path other = ['.', '.', '/', c] := by
  obtain ⟨text, hpath, hend⟩ := endsOnce_canonical path limit
  have hother : canonical .posix other = text ++ ['/'] := by
    rw [← equal_iff_canonical.mp h, hpath]
  by_cases hone : text.length = 1
  · obtain ⟨c, rfl⟩ := List.length_eq_one_iff.mp hone
    have hsame : ∀ d, canonical .posix path = [d, '/'] → d = c := by
      intro d hd
      simpa using hd.symm.trans hpath
    by_cases hdot : c = '.'
    · subst hdot
      have hrelative := relative_of_canonical_here hpath hother
      exact ⟨iff_of_true hrelative hsame, fun d hd hne => absurd (hsame d hd) hne⟩
    · have hname : IsName [c] := by
        have hslash : c ≠ '/' := by simpa [Text.endsIn] using hend
        exact ⟨by simp, by simpa using hdot, by simp, by simpa using hslash.symm⟩
      have hrelative := relative_of_canonical_singleton hname hpath hother
      refine ⟨iff_of_false (by simp [hrelative]) fun hall => hdot (hall c hpath), ?_⟩
      intro d hd _
      rw [hrelative, hsame d hd]
  · have hrelative := relative_of_canonical hpath hother hone hend
    have hnone : ∀ c, canonical .posix path ≠ [c, '/'] := by
      intro c hc
      have htext : text = [c] := List.append_cancel_right (hpath.symm.trans hc)
      exact hone (by rw [htext]; rfl)
    exact ⟨iff_of_true hrelative fun c hc => absurd hc (hnone c), fun c hc => absurd hc (hnone c)⟩

/-- A name of one character is equal to itself, and still not a dot away. -/
theorem not_relative_of_equal :
    equal .posix ['a'] ['a'] = true ∧ relative .posix ['a'] ['a'] ≠ ['.'] := by
  decide

theorem relative_of_equal_names :
    relative .posix "../x/./y".toList "../z/../x//y/".toList = ['.'] ∧
      relative .posix "b/../a".toList "a//".toList = "../a".toList := by
  constructor
  · refine (relative_of_equal (by decide)).1.mpr fun c hc => ?_
    have hcanonical : canonical .posix "../x/./y".toList = "../x/y/".toList := by decide
    rw [hcanonical] at hc
    simp at hc
  · exact (relative_of_equal (by decide)).2 'a' (by decide) (by decide)

end PaneCompletion.Path
