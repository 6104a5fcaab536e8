import PaneCompletion.Proofs.Path.Relative
import PaneCompletion.Proofs.Path.Reread
import PaneCompletion.Proofs.Text.Parts

/-!
# Names read on their own on Windows

Names that stand behind an anchor are written as they are. Read on their own, the first of them may
begin with a drive, and then dots behind its colon are left out: the next name moves up to the
drive, or nothing is left but the drive (`undotted`). Where no dots stand there the names come back
as they were, and a second reading changes nothing.

1. components that go down;
2. drives in front of names;
3. names without the dots behind a drive;
4. names read on their own;
5. paths that come to a dot.
-/

namespace PaneCompletion.Path

open Text (pieces)

/-! ## Components that go down -/

/-- Components that all go down on Windows, where runs of dots do not. -/
def GoDown (components : List Text) : Prop :=
  ∀ c ∈ components, IsName c ∧ isHere .windows c = false

theorem goDown_nil : GoDown [] := fun _ hc => nomatch hc

theorem GoDown.names {components : List Text} (h : GoDown components) : Names components :=
  fun c hc => (h c hc).1

theorem GoDown.parts {components : List Text} (h : GoDown components) : Parts components :=
  h.names.parts

theorem GoDown.of_cons {c : Text} {more : List Text} (h : GoDown (c :: more)) :
    (IsName c ∧ isHere .windows c = false) ∧ GoDown more :=
  ⟨h c List.mem_cons_self, fun d hd => h d (List.mem_cons_of_mem _ hd)⟩

theorem GoDown.of_append {a b : List Text} (h : GoDown (a ++ b)) : GoDown a ∧ GoDown b :=
  ⟨fun c hc => h c (List.mem_append_left _ hc), fun c hc => h c (List.mem_append_right _ hc)⟩

theorem GoDown.append {a b : List Text} (ha : GoDown a) (hb : GoDown b) : GoDown (a ++ b) :=
  List.forall_mem_append.mpr ⟨ha, hb⟩

theorem GoDown.cons {c : Text} (hc : IsName c ∧ isHere .windows c = false) {more : List Text}
    (h : GoDown more) : GoDown (c :: more) :=
  List.forall_mem_cons.mpr ⟨hc, h⟩

theorem GoDown.map_shortDots {components : List Text} (h : GoDown components) :
    components.map shortDots = components :=
  (List.map_congr_left fun c hc => shortDots_of_moves (h c hc).2).trans (List.map_id _)

theorem goDown_behind (rest : Text) : GoDown (behind true rest).reverse := by
  intro c hc
  have hmem := List.mem_reverse.mp hc
  exact ⟨(normal_behind true rest).names c hmem, moves_of_mem_behind hmem⟩

/-! ## Drives in front of names -/

/-- What begins with a drive goes down. -/
theorem goes_down_of_drive {letter : Char} (hletter : Text.isLetter letter = true) {rest : Text}
    (hrest : '/' ∉ rest) :
    IsName (letter :: ':' :: rest) ∧ isHere .windows (letter :: ':' :: rest) = false := by
  have hslash := ne_slash_of_isLetter hletter
  refine ⟨⟨by simp, by simp, by simp, by simpa [hslash] using hrest⟩, ?_⟩
  simp [isHere]

theorem joined_cons_stem (first : Text) (more : List Text) :
    Text.joined ['/'] (first :: more) = first ++ stem more := by
  have hcons := cons_joined (List.cons_ne_nil first more)
  rw [stem_cons] at hcons
  exact (List.cons.inj hcons).2

theorem hasDrive_append_stem {first : Text} (hne : first ≠ []) (more : List Text) :
    hasDrive (first ++ stem more) = hasDrive first := by
  match first with
  | [] => exact absurd rfl hne
  | [c] => cases more <;> rfl
  | c :: d :: rest =>
    by_cases hd : d = ':'
    · subst hd
      rfl
    · simp [hasDrive, hd]

theorem splitAnchor_plain {text : Text} (hslash : ¬['/'] <+: text)
    (hdrive : hasDrive text = false) : splitAnchor .windows text = ([], text) := by
  have htwo : hasTwoSlashes text = false := by
    unfold hasTwoSlashes
    split
    · exact absurd (by simp) hslash
    · rfl
  simp [splitAnchor, htwo, hdrive]

theorem not_slash_joined {components : List Text} (h : Parts components) :
    ¬['/'] <+: Text.joined ['/'] components := by
  rw [← Text.startsWith_iff, startsWith_joined h]
  exact Bool.false_ne_true

theorem splitAnchor_joined {first : Text} {more : List Text} (h : Parts (first :: more))
    (hdrive : hasDrive first = false) :
    splitAnchor .windows (Text.joined ['/'] (first :: more)) =
      ([], Text.joined ['/'] (first :: more)) := by
  refine splitAnchor_plain (not_slash_joined h) ?_
  rw [joined_cons_stem, hasDrive_append_stem h.of_cons.1.1, hdrive]

theorem pieces_stem {components : List Text} (h : ∀ c ∈ components, '/' ∉ c) :
    pieces '/' (stem components) = [] :: components := by
  by_cases hne : components = []
  · subst hne
    rfl
  · rw [← cons_joined hne, Text.pieces_cons_separator, Text.pieces_joined hne h]

theorem splitAnchor_stem {components : List Text} (h : Parts components) :
    splitAnchor .windows (stem components) = ([], stem components) := by
  cases components with
  | nil => rfl
  | cons first more =>
    obtain ⟨⟨hne, hslash⟩, -⟩ := h.of_cons
    obtain ⟨c, rest, rfl⟩ := List.exists_cons_of_ne_nil hne
    obtain ⟨hc, -⟩ : '/' ≠ c ∧ '/' ∉ rest := by simpa using hslash
    have htwo : hasTwoSlashes ('/' :: c :: (rest ++ stem more)) = false := by
      unfold hasTwoSlashes
      split
      · next heq => simp [hc.symm] at heq
      · rfl
    have hdrive : hasDrive ('/' :: c :: (rest ++ stem more)) = false := by
      unfold hasDrive
      split
      · next heq =>
        obtain ⟨rfl, -⟩ := List.cons.inj heq
        rfl
      · rfl
    simp [splitAnchor, htwo, hdrive]

/-! ## Names without the dots behind a drive -/

/-- Names with a text in front of the first. -/
def ontoFirst (front : Text) : List Text → List Text
  | [] => [front]
  | first :: more => (front ++ first) :: more

/-- Names as they come back when they are read on their own: without the dots behind a drive in
front. -/
def undotted : List Text → List Text
  | [] => []
  | first :: more => if hasDottedDrive first then ontoFirst (first.take 2) more else first :: more

theorem slashed_ontoFirst (front : Text) {more : List Text} (hne : more ≠ []) :
    slashed (ontoFirst front more) = front ++ slashed more := by
  obtain ⟨first, rest, rfl⟩ := List.exists_cons_of_ne_nil hne
  rw [ontoFirst, slashed_cons, slashed_cons, List.append_assoc]

theorem hasDottedDrive_eq {letter : Char} (hletter : Text.isLetter letter = true) {rest : Text}
    (hrest : '/' ∉ rest) : hasDottedDrive (letter :: ':' :: rest) = isHere .windows rest := by
  have hall : ∀ c ∈ rest, decide (c ≠ '/') = true := by
    intro c hc
    rw [decide_eq_true_iff]
    rintro rfl
    exact hrest hc
  rw [hasDottedDrive_drive hletter, List.takeWhile_eq_self_iff.mpr hall]

theorem hasDottedDrive_bare {letter : Char} (hletter : Text.isLetter letter = true) :
    hasDottedDrive [letter, ':'] = false :=
  hasDottedDrive_eq hletter List.not_mem_nil

theorem undotted_cons_of_no_dots {first : Text} (h : hasDottedDrive first = false)
    (more : List Text) : undotted (first :: more) = first :: more := by
  rw [undotted, h]
  rfl

theorem undotted_cons_of_dots {first : Text} (h : hasDottedDrive first = true)
    (more : List Text) : undotted (first :: more) = ontoFirst (first.take 2) more := by
  rw [undotted, h]
  rfl

theorem exists_ontoFirst {letter : Char} (hletter : Text.isLetter letter = true)
    {more : List Text} (h : GoDown more) :
    ∃ front others, ontoFirst [letter, ':'] more = front :: others ∧ GoDown (front :: others) ∧
      hasDrive front = true ∧ hasDottedDrive front = false ∧ others.length ≤ more.length := by
  cases more with
  | nil =>
    exact ⟨_, _, rfl, .cons (goes_down_of_drive hletter List.not_mem_nil) goDown_nil, hletter,
      hasDottedDrive_bare hletter, Nat.le_refl _⟩
  | cons next rest =>
    obtain ⟨⟨hname, hmoves⟩, hrest⟩ := h.of_cons
    exact ⟨_, _, rfl, .cons (goes_down_of_drive hletter hname.no_slash) hrest, hletter,
      (hasDottedDrive_eq hletter hname.no_slash).trans hmoves, Nat.le_succ _⟩

/-- What names come back as goes down, begins with a drive if they do, and comes back as it is. -/
theorem exists_undotted {first : Text} {more : List Text} (h : GoDown (first :: more)) :
    ∃ front others, undotted (first :: more) = front :: others ∧ GoDown (front :: others) ∧
      hasDrive front = hasDrive first ∧ hasDottedDrive front = false ∧
      others.length ≤ more.length := by
  cases hdots : hasDottedDrive first with
  | false =>
    rw [undotted_cons_of_no_dots hdots]
    exact ⟨first, more, rfl, h, rfl, hdots, Nat.le_refl _⟩
  | true =>
    have hdrive : hasDrive first = true := (Bool.and_eq_true_iff.mp hdots).1
    obtain ⟨letter, rest, hletter, rfl⟩ := exists_of_hasDrive hdrive
    rw [undotted_cons_of_dots hdots, hdrive]
    exact exists_ontoFirst hletter h.of_cons.2

theorem goDown_undotted {names : List Text} (h : GoDown names) : GoDown (undotted names) := by
  cases names with
  | nil => exact goDown_nil
  | cons first more =>
    obtain ⟨front, others, heq, hdown, -⟩ := exists_undotted h
    rwa [heq]

theorem undotted_undotted {names : List Text} (h : GoDown names) :
    undotted (undotted names) = undotted names := by
  cases names with
  | nil => rfl
  | cons first more =>
    obtain ⟨front, others, heq, -, -, hdots, -⟩ := exists_undotted h
    rw [heq, undotted_cons_of_no_dots hdots]

theorem length_undotted_le {names : List Text} (h : GoDown names) :
    (undotted names).length ≤ names.length := by
  cases names with
  | nil => exact Nat.le_refl _
  | cons first more =>
    obtain ⟨front, others, heq, -, -, -, hlength⟩ := exists_undotted h
    rw [heq]
    exact Nat.succ_le_succ hlength

theorem length_slashed_undotted_le (names : List Text) :
    (slashed (undotted names)).length ≤ (slashed names).length := by
  cases names with
  | nil => exact Nat.le_refl _
  | cons first more =>
    have htake := List.length_take_le' 2 first
    rw [undotted]
    split
    · cases more with
      | nil =>
        simp only [ontoFirst, slashed_cons, slashed_nil, List.length_append]
        omega
      | cons next rest =>
        simp only [ontoFirst, slashed_cons, List.length_append, List.length_cons]
        omega
    · exact Nat.le_refl _

/-- Where dots have been left out, the names are others, letter case aside. -/
theorem map_lower_undotted_ne {first : Text} {more : List Text} (h : GoDown (first :: more))
    (hdots : hasDottedDrive first = true) {part : List Text}
    (hpart : part <+: undotted (first :: more)) :
    part.map Text.lower ≠ (first :: more).map Text.lower := by
  intro hsame
  have hlength := congrArg List.length hsame
  rw [List.length_map, List.length_map] at hlength
  rw [undotted_cons_of_dots hdots] at hpart
  cases more with
  | nil =>
    have heq := hpart.eq_of_length hlength
    rw [heq, ontoFirst] at hsame
    have hlower : Text.lower (first.take 2) = Text.lower (first.take 2 ++ first.drop 2) := by
      rw [List.take_append_drop]
      exact List.singleton_inj.mp hsame
    have hrest := Text.lower_append_eq_left.mp hlower.symm
    rw [hasDottedDrive, hrest] at hdots
    simp [isHere] at hdots
  | cons next rest =>
    have hle := hpart.length_le
    rw [hlength, ontoFirst] at hle
    exact absurd hle (by simp)

/-! ## Names read on their own -/

theorem behind_joined (rooted : Bool) {components : List Text} (hne : components ≠ [])
    (hslash : ∀ c ∈ components, '/' ∉ c) :
    behind rooted (Text.joined ['/'] components) =
      (components.map shortDots).foldl (enter .posix rooted) [] := by
  rw [behind, Text.pieces_joined hne hslash]

theorem GoDown.behind_joined {names : List Text} (h : GoDown names) (hne : names ≠ []) :
    behind true (Text.joined ['/'] names) = names.reverse := by
  rw [Path.behind_joined true hne h.parts.no_slash, h.map_shortDots,
    foldl_enter_names true h.names, List.append_nil]

/-- Behind a component that stays where it is the names stand alone. -/
theorem behind_append_stem {first : Text} (hslash : '/' ∉ first) {more : List Text}
    (h : GoDown more) :
    behind false (first ++ stem more) =
      more.reverse ++ if first = [] ∨ isHere .windows first = true then [] else [first] := by
  have hall : ∀ c ∈ first :: more, '/' ∉ c := List.forall_mem_cons.mpr ⟨hslash, h.parts.no_slash⟩
  rw [← joined_cons_stem, behind_joined false (List.cons_ne_nil _ _) hall, List.map_cons,
    h.map_shortDots, List.foldl_cons, foldl_enter_names false h.names]
  congr 1
  cases hhere : isHere .windows first with
  | true => simp [shortDots_of_here hhere, enter]
  | false =>
    have hdot : first ≠ ['.'] := by
      rintro rfl
      cases hhere
    rw [shortDots_of_moves hhere]
    by_cases hnil : first = []
    · simp [hnil, enter]
    · by_cases hparent : first = ['.', '.']
      · subst hparent
        rfl
      · rw [enter_name false ⟨hnil, hdot, hparent, hslash⟩]
        simp [hnil]

/-- What begins with a drive is written with the names moved up to it, where dots stand behind the
drive. -/
theorem whole_drive_append_stem {letter : Char} (hletter : Text.isLetter letter = true)
    {rest : Text} (hslash : '/' ∉ rest) {more : List Text} (h : GoDown more) :
    whole .windows (letter :: ':' :: (rest ++ stem more)) =
      slashed (undotted ((letter :: ':' :: rest) :: more)) := by
  by_cases hrest : rest = []
  · subst hrest
    rw [undotted_cons_of_no_dots (hasDottedDrive_bare hletter), List.nil_append, slashed_cons]
    by_cases hmore : more = []
    · subst hmore
      rw [whole_drive hletter (by simp)]
      rfl
    · have hwhole := whole_rooted (.drive hletter) (Text.joined ['/'] more)
      rw [h.behind_joined hmore, List.reverse_reverse] at hwhole
      rwa [← cons_joined hmore]
  · have hstart : ¬['/'] <+: rest ++ stem more := by
      obtain ⟨c, text, rfl⟩ := List.exists_cons_of_ne_nil hrest
      obtain ⟨hc, -⟩ : '/' ≠ c ∧ '/' ∉ text := by simpa using hslash
      simpa using hc
    have hdots := hasDottedDrive_eq hletter hslash
    rw [whole_drive hletter hstart, behind_append_stem hslash h]
    cases hhere : isHere .windows rest with
    | true =>
      rw [undotted_cons_of_dots (hdots.trans hhere), if_pos (.inr rfl), List.append_nil,
        List.reverse_reverse]
      by_cases hmore : more = []
      · subst hmore
        rfl
      · rw [slashed_ontoFirst _ hmore, render_drive letter _ h.parts hmore]
        rfl
    | false =>
      have hparts : Parts (rest :: more) := List.forall_mem_cons.mpr ⟨⟨hrest, hslash⟩, h.parts⟩
      rw [undotted_cons_of_no_dots (hdots.trans hhere), if_neg (by simp [hrest])]
      rw [List.reverse_append, List.reverse_reverse, List.reverse_singleton, List.singleton_append,
        render_drive letter _ hparts (List.cons_ne_nil _ _), slashed_cons, slashed_cons]
      rfl

/-- Names read on their own are written as they come back. -/
theorem whole_windows_joined {names : List Text} (h : GoDown names) (hne : names ≠ []) :
    whole .windows (Text.joined ['/'] names) = slashed (undotted names) := by
  obtain ⟨first, more, rfl⟩ := List.exists_cons_of_ne_nil hne
  obtain ⟨⟨hname, -⟩, hmore⟩ := h.of_cons
  cases hdrive : hasDrive first with
  | false =>
    have hdots := hasDottedDrive_of_no_drive hdrive
    have hplain := splitAnchor_joined h.parts hdrive
    have hshort : shortened (Text.joined ['/'] (first :: more)) =
        Text.joined ['/'] (first :: more) := by
      refine shortened_eq_self fun c hc => shortDots_of_moves (h c ?_).2
      rwa [Text.pieces_joined hne h.parts.no_slash] at hc
    rw [whole_plain hplain, hshort, whole_joined h.names hne, undotted_cons_of_no_dots hdots]
  | true =>
    obtain ⟨letter, rest, hletter, rfl⟩ := exists_of_hasDrive hdrive
    have hslash : '/' ∉ rest := fun hmem => hname.no_slash (by simp [hmem])
    rw [joined_cons_stem]
    exact whole_drive_append_stem hletter hslash hmore

theorem not_slash_of_drive {text written : Text} (h : hasDrive text = true)
    (hanchor : (splitAnchor .windows text).1 <+: written) : ¬['/'] <+: written := by
  obtain ⟨letter, rest, hletter, rfl⟩ := exists_of_hasDrive h
  rw [splitAnchor_drive hletter] at hanchor
  intro hslash
  have hdrive := List.prefix_of_prefix_length_le hslash hanchor (by simp)
  exact no_slash_drive hletter (hdrive.subset List.mem_cons_self)

/-- What does not begin with a slash is not written with one in front. -/
theorem not_slash_whole {text : Text} (hne : text ≠ []) (hslash : ¬['/'] <+: text) :
    ¬['/'] <+: whole .windows text := by
  cases hdrive : hasDrive text with
  | true => exact not_slash_of_drive hdrive (anchor_prefix_written .windows text limit).2
  | false =>
    have hrelative : isAbsolute .posix (shortened text) = false := by
      rw [isAbsolute, startsWith_shortened, Bool.eq_false_iff]
      simpa [Text.startsWith_iff] using hslash
    rw [whole_plain (splitAnchor_plain hslash hdrive),
      whole_relative hrelative (shortened_ne_nil hne)]
    exact not_slash_prefix_slashed (normal_stackOf _).standing.parts.reverse

/-! ## Paths that come to a dot -/

theorem canonical_posix_eq_here {path : Text} (hne : path ≠ []) (capacity : Int)
    (h : whole .posix path = ['.', '/']) : canonical .posix path capacity = ['.', '/'] := by
  cases habsolute : isAbsolute .posix path with
  | true =>
    rw [whole_absolute habsolute] at h
    simp at h
  | false =>
    obtain ⟨hnormal, hwritten⟩ := canonical_eq_of_relative habsolute hne capacity
    have hparts := (normal_stackOf path).standing.parts.reverse
    rw [whole_relative habsolute hne] at h
    have hstack : standing (stackOf .posix false false path) = [['.']] :=
      List.reverse_inj.mp ((slashed_inj hparts (by simp [Parts])).mp h)
    have hkept := Frame.kept_suffix ⟨[], false, true⟩ capacity (stackOf .posix false false path)
    rw [hwritten]
    generalize Frame.kept _ _ _ = kept at hkept ⊢
    by_cases hnone : kept = []
    · subst hnone
      rfl
    · have hsome : stackOf .posix false false path ≠ [] := by
        intro hnil
        rw [hnil] at hkept
        exact hnone (List.suffix_nil.mp hkept)
      rw [standing, if_neg hsome] at hstack
      rw [hstack] at hkept
      rw [hkept.eq_of_length_le (List.length_pos_iff.mpr hnone)]
      rfl

/-- A path that comes to a dot does so whatever the capacity. -/
theorem canonical_eq_here {os : Platform} {path : Text} (hne : path ≠ []) (capacity : Int)
    (h : whole os path = ['.', '/']) : canonical os path capacity = ['.', '/'] := by
  cases os with
  | posix => exact canonical_posix_eq_here hne capacity h
  | windows =>
    have hanchor := (anchor_prefix_written .windows path capacity).2
    rw [h] at hanchor
    rcases anchor_cases path with hplain | rfl | ⟨letter, rest, hletter, rfl⟩ |
      ⟨name, rest, hname, hslash, hrest, rfl⟩
    · rw [whole_plain hplain] at h
      rw [canonical_plain hplain]
      exact canonical_posix_eq_here (shortened_ne_nil hne) capacity h
    · exact absurd hanchor (by decide)
    · rw [splitAnchor_drive hletter] at hanchor
      simp at hanchor
    · rw [splitAnchor_host hname hslash hrest] at hanchor
      simp at hanchor

end PaneCompletion.Path
