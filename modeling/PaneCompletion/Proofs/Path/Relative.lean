import PaneCompletion.Proofs.Path.Fitting
import PaneCompletion.Proofs.Path.Shared

/-!
# Relative paths lead back

From a base directory the relative path leads to where the path leads, and no shorter one does. What
the two canonical forms have left behind their shared beginning is what their names have left
(`beyond`), so the relative path spells out the way between them, up all the way and down as far as
there is room behind the steps up (`relative_eq_way`). Where nothing is cut that is the way between
the locations (`relative_eq`). It leads back, and its length is the distance between them.

1. the components that are left;
2. the way from one location to another;
3. what a relative path reaches;
4. relative paths.
-/

namespace PaneCompletion.Path

open Text (pieces)

/-! ## The components that are left -/

theorem slashed_ne_here {names : List Text} (h : Names names) : slashed names ≠ ['.', '/'] := by
  intro hslashed
  have hpieces := pieces_slashed h.parts.no_slash
  rw [hslashed] at hpieces
  have hnames : names = [['.']] :=
    List.append_cancel_right (hpieces.symm.trans (by decide : _ = [['.']] ++ [[]]))
  exact (h ['.'] (by simp [hnames])).ne_here rfl

theorem countP_counts {names : List Text} (h : Names names) : names.countP counts = names.length :=
  List.countP_eq_length.mpr fun c hc => by simp [counts, (h c hc).ne_nil, (h c hc).ne_here]

/-- The names that are left of the base are counted in their canonical form. -/
theorem depth_canonical_stem {names : List Text} (h : Names names)
    (hfit : ('/' :: slashed names).length < limit) :
    depth (canonical .posix (stem names)) = names.length := by
  cases names with
  | nil => decide
  | cons name more =>
    have habsolute : isAbsolute .posix (stem (name :: more)) = true := by
      simp [isAbsolute, Text.startsWith]
    have hlocation := location_stem h
    have hshown : shown (stem (name :: more)) = name :: more := by
      rw [shown_eq_location_iff.mpr (by rwa [hlocation]), hlocation]
    rw [canonical_eq_shown habsolute, hshown]
    show ((pieces '/' ('/' :: slashed (name :: more))).countP counts) = _
    rw [Text.pieces_cons_separator, pieces_slashed h.parts.no_slash,
      List.countP_cons_of_neg (by decide), List.countP_append, countP_counts h]
    rfl

theorem stackOf_joined {names : List Text} (h : Names names) (hne : names ≠ []) :
    stackOf .posix false false (Text.joined ['/'] names) = names.reverse := by
  obtain ⟨name, more, rfl⟩ := List.exists_cons_of_ne_nil hne
  obtain ⟨hname, hmore⟩ := h.of_cons
  have hopening : opening .posix false false name = [name] := by
    simp [opening, hname.ne_here, enter_name false hname]
  rw [stackOf, Text.pieces_joined hne fun c hc => (h c hc).no_slash]
  simp only [hopening, foldl_enter_names false hmore]
  simp

/-- Of the names that are left of the path, the canonical form keeps those that there is room for; a
dot stands for none. -/
theorem canonical_joined {names : List Text} (h : Names names) (hne : names ≠ [])
    (capacity : Int) :
    canonical .posix (Text.joined ['/'] names) capacity =
      slashed (standing (fitting (capacity - 1).toNat names)) := by
  have htext : Text.joined ['/'] names ≠ [] := Text.joined_ne_nil hne fun c hc => (h c hc).ne_nil
  have hrelative : isAbsolute .posix (Text.joined ['/'] names) = false := by
    simp [isAbsolute, startsWith_joined h.parts]
  have hstanding : standing names.reverse = names.reverse := if_neg (by simpa using hne)
  rw [canonical_eq_standing hrelative htext, stackOf_joined h hne, hstanding, List.reverse_reverse]

theorem whole_joined {names : List Text} (h : Names names) (hne : names ≠ []) :
    whole .posix (Text.joined ['/'] names) = slashed names := by
  have htext : Text.joined ['/'] names ≠ [] := Text.joined_ne_nil hne fun c hc => (h c hc).ne_nil
  have hrelative : isAbsolute .posix (Text.joined ['/'] names) = false := by
    simp [isAbsolute, startsWith_joined h.parts]
  rw [whole_relative hrelative htext, stackOf_joined h hne, standing, if_neg (by simpa using hne),
    List.reverse_reverse]

/-! ## The way from one location to another -/

/-- The components that lead from one location to another: up to where they part, and down. -/
def way (s t : List Text) : List Text :=
  List.replicate (beyond s t).length ['.', '.'] ++ beyond t s

/-- Components as a relative path; a dot where there are none. -/
def spelled (components : List Text) : Text :=
  if components = [] then ['.'] else Text.joined ['/'] components

theorem length_way (s t : List Text) : (way s t).length = distance s t := by
  simp [way, distance]

theorem way_components {s t : List Text} (ht : Names t) :
    ∀ c ∈ way s t, c ≠ [] ∧ '/' ∉ c ∧ counts c = true := by
  intro c hc
  rcases List.mem_append.mp hc with hup | hdown
  · rw [List.eq_of_mem_replicate hup]
    decide
  · have hname := ht.beyond s c hdown
    exact ⟨hname.ne_nil, hname.no_slash, by simp [counts, hname.ne_nil, hname.ne_here]⟩

theorem way_no_slash (s : List Text) {t : List Text} (ht : Names t) : ∀ c ∈ way s t, '/' ∉ c :=
  fun c hc => (way_components ht c hc).2.1

theorem pieces_spelled {components : List Text} (h : ∀ c ∈ components, '/' ∉ c) :
    pieces '/' (spelled components) = if components = [] then [['.']] else components := by
  rw [spelled]
  split
  · rfl
  · next hne => exact Text.pieces_joined hne h

theorem walk_spelled {components : List Text} (h : ∀ c ∈ components, '/' ∉ c)
    (stack : List Text) :
    walk stack (spelled components) = components.foldl (enter .posix true) stack := by
  rw [walk, pieces_spelled h]
  split
  · next hnil =>
    subst hnil
    simp [enter]
  · rfl

theorem depth_spelled {components : List Text} (hslash : ∀ c ∈ components, '/' ∉ c)
    (hcounts : ∀ c ∈ components, counts c = true) :
    depth (spelled components) = components.length := by
  show (pieces '/' (spelled components)).countP counts = _
  rw [pieces_spelled hslash]
  split
  · next hnil =>
    subst hnil
    rfl
  · exact List.countP_eq_length.mpr hcounts

theorem not_isAbsolute_spelled {components : List Text} (h : ∀ c ∈ components, c ≠ [] ∧ '/' ∉ c) :
    isAbsolute .posix (spelled components) = false := by
  have hstart : Text.startsWith (spelled components) ['/'] = false := by
    rw [spelled]
    split
    · rfl
    · exact startsWith_joined h
  simp [isAbsolute, hstart]

theorem foldl_enter_parents (n : Nat) {stack : List Text} (h : Names stack) :
    (List.replicate n ['.', '.']).foldl (enter .posix true) stack = stack.drop n := by
  induction n generalizing stack with
  | zero => rfl
  | succ n ih =>
    have hup : enter .posix true stack ['.', '.'] = stack.tail := by
      simp [enter, leave_rooted h]
    have htail : Names stack.tail := fun c hc => h c (List.mem_of_mem_tail hc)
    rw [List.replicate_succ, List.foldl_cons, hup, ih htail, ← List.drop_one, List.drop_drop,
      Nat.add_comm]

/-- The way from one location to another leads there. -/
theorem foldl_enter_way {s t : List Text} (hs : Names s) (ht : Names t) :
    (way s t).foldl (enter .posix true) s.reverse = t.reverse := by
  have hclimbed : s.reverse.drop (beyond s t).length = (shared s t).reverse := by
    have hreverse : s.reverse = (beyond s t).reverse ++ (shared s t).reverse := by
      rw [← List.reverse_append, shared_append_beyond]
    rw [hreverse, List.drop_left' (by simp)]
  rw [way, List.foldl_append, foldl_enter_parents _ hs.reverse, hclimbed,
    foldl_enter_names true (ht.beyond s), ← List.reverse_append, shared_append_beyond_comm]

/-! ## What a relative path reaches -/

/-- How many characters there is room for behind so many steps up. -/
def roomBehind (ups : Nat) : Nat := limit - 1 - 3 * ups

/-- The names that a relative path leads to: those that the locations share, and of what is left of
the target those that there is room for behind the steps up. -/
def reached (s t : List Text) : List Text :=
  shared s t ++ fitting (roomBehind (beyond s t).length) (beyond t s)

/-- Whether there is room for all that is left of a target; nothing needs none. -/
def HasRoom (s t : List Text) : Prop :=
  (slashed (beyond t s)).length ≤ roomBehind (beyond s t).length

instance (s t : List Text) : Decidable (HasRoom s t) := inferInstanceAs (Decidable (_ ≤ _))

theorem reached_prefix_target (s t : List Text) : reached s t <+: t := by
  have hbegins := fitting_prefix_self (roomBehind (beyond s t).length) (beyond t s)
  have hlonger := (List.prefix_append_right_inj (shared s t)).mpr hbegins
  rwa [shared_append_beyond_comm] at hlonger

theorem names_reached (s : List Text) {t : List Text} (h : Names t) : Names (reached s t) :=
  h.of_isPrefix (reached_prefix_target s t)

/-- The target is reached exactly if there is room for it. -/
theorem reached_eq_iff {s t : List Text} : reached s t = t ↔ HasRoom s t := by
  have ht := shared_append_beyond_comm s t
  rw [HasRoom, ← fitting_eq_self_iff]
  constructor
  · intro h
    exact List.append_cancel_left (h.trans ht.symm)
  · intro h
    rw [reached, h, ht]

/-- The way to what is reached goes up as far as the way to the target, and then down as far as
there is room. -/
theorem way_reached (s t : List Text) :
    way s (reached s t) = List.replicate (beyond s t).length ['.', '.'] ++
      fitting (roomBehind (beyond s t).length) (beyond t s) := by
  have hpart := (parted_beyond s t).of_isPrefix
    (fitting_prefix_self (roomBehind (beyond s t).length) (beyond t s))
  have hup := beyond_append (shared s t) (beyond s t)
    (fitting (roomBehind (beyond s t).length) (beyond t s))
  have hdown := beyond_append (shared s t)
    (fitting (roomBehind (beyond s t).length) (beyond t s)) (beyond s t)
  rw [shared_append_beyond, hpart.beyond_eq] at hup
  rw [shared_append_beyond, hpart.symm.beyond_eq] at hdown
  rw [way, reached, hup, hdown]

/-! ## Relative paths -/

theorem climb_eq (n : Nat) : climb n = slashed (List.replicate n ['.', '.']) := by
  rw [climb, slashed, List.flatMap_replicate]
  rfl

theorem length_climb (n : Nat) : (climb n).length = 3 * n := by
  simp [climb, Nat.mul_comm]

theorem dropSlash_append_slash (text : Text) : dropSlash (text ++ ['/']) = text := by
  simp [dropSlash, Text.endsIn]

theorem dropSlash_slashed (names : List Text) :
    dropSlash (slashed names) = Text.joined ['/'] names := by
  by_cases hne : names = []
  · subst hne
    rfl
  · rw [← joined_append_slash hne, dropSlash_append_slash]

theorem drop_first_slash (names : List Text) :
    (if Text.startsWith (stem names) ['/'] then (stem names).drop 1 else stem names) =
      Text.joined ['/'] names := by
  by_cases hne : names = []
  · subst hne
    rfl
  · rw [← cons_joined hne]
    rfl

/-- Steps up and those names that there is room for behind them make one path. -/
theorem climb_append_tail (n : Nat) {names : List Text} (h : Names names) :
    let rest := Text.joined ['/'] names
    let tail := canonical .posix rest ((limit : Int) - (climb n).length)
    dropSlash (if rest.isEmpty ∨ tail = ['.', '/'] then climb n else climb n ++ tail) =
      Text.joined ['/'] (List.replicate n ['.', '.'] ++ fitting (roomBehind n) names) := by
  intro rest tail
  by_cases hne : names = []
  · subst hne
    rw [if_pos (.inl rfl), climb_eq, dropSlash_slashed, fitting, List.append_nil]
  · have hrest : rest ≠ [] := Text.joined_ne_nil hne fun c hc => (h c hc).ne_nil
    have hroom : ((limit : Int) - (climb n).length - 1).toNat = roomBehind n := by
      rw [length_climb, roomBehind]
      omega
    have htail : tail = slashed (standing (fitting (roomBehind n) names)) := by
      rw [← hroom]
      exact canonical_joined h hne _
    by_cases hnone : fitting (roomBehind n) names = []
    · have hhere : tail = ['.', '/'] := by
        rw [htail, hnone]
        rfl
      rw [if_pos (.inr hhere), hnone, climb_eq, dropSlash_slashed, List.append_nil]
    · rw [standing, if_neg hnone] at htail
      have hnot : ¬(rest.isEmpty ∨ tail = ['.', '/']) := by
        rw [htail]
        simp [hrest, slashed_ne_here (h.fitting _)]
      rw [if_neg hnot, htail, climb_eq, ← slashed_append, dropSlash_slashed]

/-- The relative path spells out the way between the names that the canonical forms show, as far as
there is room for it. -/
theorem relative_eq_way {path base : Text} (hpath : isAbsolute .posix path = true)
    (hbase : isAbsolute .posix base = true) :
    relative .posix path base =
      spelled (way (shown base) (reached (shown base) (shown path))) := by
  have hpathStem : dropSlash (canonical .posix path) = stem (shown path) := by
    rw [canonical_eq_shown hpath, cons_slashed, dropSlash_append_slash]
  have hbaseStem : dropSlash (canonical .posix base) = stem (shown base) := by
    rw [canonical_eq_shown hbase, cons_slashed, dropSlash_append_slash]
  obtain ⟨hpathLeft, hbaseLeft⟩ :=
    drop_sharedEnd_stem (names_shown path).parts (names_shown base).parts
  have hups : depth (canonical .posix (stem (beyond (shown base) (shown path)))) =
      (beyond (shown base) (shown path)).length := by
    refine depth_canonical_stem ((names_shown base).beyond _) ?_
    have hlength := length_shown_lt base
    have hle := length_slashed_le_append (shared (shown base) (shown path))
      (beyond (shown base) (shown path))
    rw [shared_append_beyond] at hle
    rw [List.length_cons] at hlength ⊢
    omega
  simp only [relative, hpathStem, hbaseStem, hpathLeft, hbaseLeft, hups, drop_first_slash,
    climb_append_tail _ ((names_shown path).beyond _), ← way_reached]
  have hdrives : onDifferentDrives .posix (stem (shown path)) (stem (shown base)) = false := rfl
  rw [hdrives, if_neg (by simp)]
  have hcomponents := way_components (names_reached (shown base) (names_shown path))
    (s := shown base)
  rw [spelled]
  by_cases hway : way (shown base) (reached (shown base) (shown path)) = []
  · rw [hway]
    rfl
  · rw [if_neg hway, if_neg]
    simpa using Text.joined_ne_nil hway fun c hc => (hcomponents c hc).1

/-- Where nothing is cut, the relative path spells out the way between the locations. -/
theorem relative_eq {path base : Text} (hpath : isAbsolute .posix path = true)
    (hbase : isAbsolute .posix base = true) (hpathWhole : Untruncated .posix path)
    (hbaseWhole : Untruncated .posix base)
    (hfit : 3 * (beyond (location base) (location path)).length +
      (slashed (beyond (location path) (location base))).length < limit) :
    relative .posix path base = spelled (way (location base) (location path)) := by
  have hroom : HasRoom (location base) (location path) := by
    rw [HasRoom, roomBehind]
    omega
  rw [relative_eq_way hpath hbase, (untruncated_iff hpath).mp hpathWhole,
    (untruncated_iff hbase).mp hbaseWhole, reached_eq_iff.mpr hroom]

/-- A path brings a location closer to another by as many as its components count. -/
theorem distance_walk_le {stack : List Text} (hstack : Names stack) (path : Text)
    (target : List Text) :
    distance stack.reverse target ≤ distance (walk stack path).reverse target + depth path :=
  distance_foldl_le (fun _ hc => Text.not_mem_of_mem_pieces hc) hstack target

/-- No path leads from a directory to a location with fewer components that count than there are
between the two. -/
theorem distance_le_depth {base other : Text} {target : List Text}
    (hother : location (base ++ '/' :: other) = target) :
    distance (location base) target ≤ depth other := by
  have hle := distance_walk_le (names_walk names_nil base) other target
  have hend : (walk (walk [] base) other).reverse = target := by
    rw [← walk_append]
    exact hother
  rw [hend, distance_self] at hle
  rw [← Nat.zero_add (depth other)]
  exact hle

/-- From an absolute base the relative path is not absolute and leads back to the path, and none
that does has fewer components. The conditions on lengths say that nothing is cut on the way. -/
theorem relative_shortest {path base : Text} (hpath : isAbsolute .posix path = true)
    (hbase : isAbsolute .posix base = true) (hpathWhole : Untruncated .posix path)
    (hbaseWhole : Untruncated .posix base)
    (hfit : 3 * (beyond (location base) (location path)).length +
      (slashed (beyond (location path) (location base))).length < limit) :
    isAbsolute .posix (relative .posix path base) = false ∧
      canonical .posix (base ++ '/' :: relative .posix path base) = canonical .posix path ∧
      ∀ other, location (base ++ '/' :: other) = location path →
        depth (relative .posix path base) ≤ depth other := by
  have hcomponents := way_components (names_location path) (s := location base)
  have hslash := fun c hc => (hcomponents c hc).2.1
  rw [relative_eq hpath hbase hpathWhole hbaseWhole hfit]
  refine ⟨not_isAbsolute_spelled fun c hc => ⟨(hcomponents c hc).1, hslash c hc⟩, ?_, ?_⟩
  · refine canonical_congr (isAbsolute_append hbase _) hpath ?_
    have hway := foldl_enter_way (names_location base) (names_location path)
    rw [location, walk_append, walk_spelled hslash, ← List.reverse_reverse (walk [] base)]
    exact (congrArg List.reverse hway).trans (List.reverse_reverse _)
  · intro other hother
    rw [depth_spelled hslash fun c hc => (hcomponents c hc).2.2, length_way]
    exact distance_le_depth hother

theorem relative_shortest_up :
    let path := "/a/./b//c".toList
    let base := "/a/x/../y/".toList
    relative .posix path base = "../b/c".toList ∧
      canonical .posix (base ++ '/' :: relative .posix path base) = canonical .posix path ∧
      ∀ other, location (base ++ '/' :: other) = location path → 3 ≤ depth other := by
  intro path base
  have hrelative : relative .posix path base = "../b/c".toList := by decide +kernel
  have hpath : isAbsolute .posix path = true := by decide
  have hbase : isAbsolute .posix base = true := by decide
  obtain ⟨-, hback, hshortest⟩ := relative_shortest hpath hbase (by decide +kernel)
    (by decide +kernel) (by decide +kernel)
  refine ⟨hrelative, hback, fun other hother => ?_⟩
  have hdepth := hshortest other hother
  rwa [hrelative] at hdepth

end PaneCompletion.Path
