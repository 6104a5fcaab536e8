import PaneCompletion.Proofs.Path.Normal

/-!
# How much of a path is written

A canonical form is cut by whole components from its end until it is shorter than its capacity. What
is left is the longest beginning of the components that there is room for (`prefix_fitting_iff`), so
it is found from the front as well, by taking components as long as they fit (`fitting`). Of an
absolute path that leaves the names that its canonical form shows. Of any path it leaves the longest
beginning of the text that ends in a slash (`canonical_longest`), but for a dot where a relative
path has none that fits.

1. components that there is room for;
2. cutting a stack;
3. the names that a canonical form shows;
4. the longest beginning.
-/

namespace PaneCompletion.Path

open Text (pieces)

/-! ## Components that there is room for -/

/-- The components from the front on that there is room for, with a slash after each. -/
def fitting : Nat → List Text → List Text
  | _, [] => []
  | room, c :: more => if c.length < room then c :: fitting (room - (c.length + 1)) more else []

/-- What there is room for is the longest beginning that fits. -/
theorem prefix_fitting_iff {room : Nat} {components part : List Text} :
    part <+: fitting room components ↔ part <+: components ∧ (slashed part).length ≤ room := by
  induction components generalizing room part with
  | nil =>
    rw [fitting]
    constructor
    · intro h
      simp [List.prefix_nil.mp h]
    · exact And.left
  | cons c more ih =>
    cases part with
    | nil => simp
    | cons d rest =>
      rw [fitting]
      split
      · next hroom =>
        rw [List.cons_prefix_cons, ih, List.cons_prefix_cons, and_assoc]
        refine and_congr_right fun heq => and_congr_right fun _ => ?_
        subst heq
        simp
        omega
      · next hroom =>
        refine iff_of_false (by simp) ?_
        rintro ⟨hbegins, hlength⟩
        obtain ⟨rfl, -⟩ := List.cons_prefix_cons.mp hbegins
        simp at hlength
        omega

theorem fitting_prefix_self (room : Nat) (components : List Text) :
    fitting room components <+: components :=
  (prefix_fitting_iff.mp List.prefix_rfl).1

theorem length_slashed_fitting_le (room : Nat) (components : List Text) :
    (slashed (fitting room components)).length ≤ room :=
  (prefix_fitting_iff.mp List.prefix_rfl).2

theorem fitting_eq_self_iff {room : Nat} {components : List Text} :
    fitting room components = components ↔ (slashed components).length ≤ room := by
  constructor
  · intro h
    rw [← h]
    exact length_slashed_fitting_le room components
  · intro h
    have hlonger := prefix_fitting_iff.mpr ⟨List.prefix_rfl, h⟩
    exact (fitting_prefix_self room components).eq_of_length_le hlonger.length_le

/-- Components that do not fit lose the last one first. -/
theorem fitting_append_singleton (room : Nat) (components : List Text) (last : Text) :
    fitting room (components ++ [last]) =
      if (slashed (components ++ [last])).length ≤ room then components ++ [last]
      else fitting room components := by
  split
  · next hroom => exact fitting_eq_self_iff.mpr hroom
  · next hroom =>
    have hleft : fitting room (components ++ [last]) <+: components := by
      rcases List.prefix_concat_iff.mp (fitting_prefix_self room (components ++ [last])) with h | h
      · exact absurd (fitting_eq_self_iff.mp h) hroom
      · exact h
    have hshorter : fitting room (components ++ [last]) <+: fitting room components :=
      prefix_fitting_iff.mpr ⟨hleft, length_slashed_fitting_le ..⟩
    have hlonger : fitting room components <+: fitting room (components ++ [last]) :=
      prefix_fitting_iff.mpr
        ⟨(fitting_prefix_self ..).trans (List.prefix_append ..), length_slashed_fitting_le ..⟩
    exact hshorter.eq_of_length_le hlonger.length_le

theorem Names.fitting {names : List Text} (h : Names names) (room : Nat) :
    Names (fitting room names) :=
  h.of_isPrefix (fitting_prefix_self room names)

/-! ## Cutting a stack -/

theorem Frame.kept_suffix (frame : Frame) (capacity : Int) (stack : List Text) :
    frame.kept capacity stack <:+ stack := by
  induction stack with
  | nil => exact List.suffix_rfl
  | cons top below ih =>
    rw [kept]
    split
    · exact ih.trans (List.suffix_cons top below)
    · exact List.suffix_rfl

/-- Components that there is room for are all written. -/
theorem Frame.fit_of_le {frame : Frame} {capacity : Int} {stack : List Text}
    (h : ((frame.render stack.reverse).length : Int) ≤ capacity - 1) :
    frame.fit capacity stack = frame.render stack.reverse := by
  cases stack with
  | nil => rfl
  | cons top below => rw [fit, if_neg (by omega)]

/-- There is room for what is left of a stack. -/
theorem Frame.length_render_kept_le {frame : Frame} {capacity : Int} {stack : List Text}
    (h : frame.kept capacity stack ≠ []) :
    ((frame.render (frame.kept capacity stack).reverse).length : Int) ≤ capacity - 1 := by
  induction stack with
  | nil => exact absurd rfl h
  | cons top below ih =>
    rw [kept] at h ⊢
    split
    · next hlong =>
      rw [if_pos hlong] at h
      exact ih h
    · omega

theorem canonical_eq_whole_of_le {os : Platform} {path : Text} {capacity : Int}
    (h : ((whole os path).length : Int) ≤ capacity - 1) :
    canonical os path capacity = whole os path :=
  Frame.fit_of_le h

/-- A stack that is written with so many characters in front of its components keeps those that
there is room for behind them. -/
theorem kept_reverse {frame : Frame} {components : List Text} (ahead : Nat)
    (hlength : ∀ part, part <+: components → part ≠ [] →
      (frame.render part).length = ahead + (slashed part).length) (capacity : Int) :
    frame.kept capacity components.reverse =
      (fitting (capacity - 1 - ahead).toNat components).reverse := by
  induction components using List.reverseRecOn with
  | nil => rfl
  | append_singleton front last ih =>
    have hrender := hlength (front ++ [last]) List.prefix_rfl (by simp)
    have hfront := ih fun part hpart => hlength part (hpart.trans (List.prefix_append ..))
    have hsome : 0 < (slashed (front ++ [last])).length := by
      rw [slashed_append, slashed_cons, List.length_append, List.length_append, List.length_cons]
      omega
    rw [List.reverse_append, List.reverse_singleton, List.singleton_append, Frame.kept,
      List.reverse_cons, List.reverse_reverse, hfront, fitting_append_singleton]
    split
    · rw [if_neg (by omega)]
    · rw [if_pos (by omega)]
      simp

/-- Of an absolute path those names are written that there is room for behind the first slash. -/
theorem canonical_eq_fitting {path : Text} (h : isAbsolute .posix path = true) (capacity : Int) :
    canonical .posix path capacity =
      '/' :: slashed (fitting (capacity - 1 - 1).toNat (location path)) := by
  have hlength : ∀ part, part <+: location path → part ≠ [] →
      ((Frame.mk [] true true).render part).length = 1 + (slashed part).length := by
    intro part hpart _
    rw [render_absolute ((names_location path).of_isPrefix hpart), List.length_cons, Nat.add_comm]
  obtain ⟨-, hcanonical⟩ := canonical_eq_of_absolute h capacity
  rw [hcanonical, kept_reverse 1 hlength, List.reverse_reverse]
  rfl

/-- Of a relative path those components are written that there is room for; a dot stands for
none. -/
theorem canonical_eq_standing {path : Text} (h : isAbsolute .posix path = false) (hne : path ≠ [])
    (capacity : Int) :
    canonical .posix path capacity =
      slashed (standing (fitting (capacity - 1).toNat
        (standing (stackOf .posix false false path)).reverse)) := by
  have hparts : Parts (standing (stackOf .posix false false path)).reverse :=
    (normal_stackOf path).standing.parts.reverse
  have hlength : ∀ part, part <+: (standing (stackOf .posix false false path)).reverse →
      part ≠ [] → ((Frame.mk [] false true).render part).length = 0 + (slashed part).length := by
    intro part hpart hsome
    rw [render_relative (hparts.of_isPrefix hpart), standing, if_neg hsome, Nat.zero_add]
  have hkept := kept_reverse 0 hlength capacity
  rw [List.reverse_reverse, show capacity - 1 - (0 : Nat) = capacity - 1 by omega] at hkept
  rw [canonical_relative h hne, ← fit_standing, Frame.fit_eq_render, hkept, List.reverse_reverse,
    render_relative (hparts.of_isPrefix (fitting_prefix_self _ _))]

/-! ## The names that a canonical form shows -/

/-- The names that the canonical form of an absolute path is written from: those on the way to its
location that there is room for behind the first slash, with one place free. -/
def shown (path : Text) : List Text := fitting (limit - 2) (location path)

theorem names_shown (path : Text) : Names (shown path) := (names_location path).fitting _

theorem length_shown_lt (path : Text) : ('/' :: slashed (shown path)).length < limit := by
  have hle := length_slashed_fitting_le (limit - 2) (location path)
  rw [List.length_cons, shown]
  simp only [limit] at hle ⊢
  omega

theorem canonical_eq_shown {path : Text} (h : isAbsolute .posix path = true) :
    canonical .posix path = '/' :: slashed (shown path) :=
  canonical_eq_fitting h limit

theorem shown_eq_location_iff {path : Text} :
    shown path = location path ↔ ('/' :: slashed (location path)).length < limit := by
  rw [shown, fitting_eq_self_iff, List.length_cons]
  simp only [limit]
  omega

theorem slashed_inj {a b : List Text} (ha : Parts a) (hb : Parts b) :
    slashed a = slashed b ↔ a = b := by
  constructor
  · intro h
    rw [← components_slashed ha, h, components_slashed hb]
  · exact congrArg slashed

theorem untruncated_iff {path : Text} (h : isAbsolute .posix path = true) :
    Untruncated .posix path ↔ shown path = location path := by
  rw [Untruncated, canonical_eq_shown h, whole_absolute h, List.cons_inj_right,
    slashed_inj (names_shown path).parts (names_location path).parts]

/-- Absolute paths have the same canonical form exactly if it shows the same names. -/
theorem canonical_eq_iff_shown {a b : Text} (ha : isAbsolute .posix a = true)
    (hb : isAbsolute .posix b = true) :
    canonical .posix a = canonical .posix b ↔ shown a = shown b := by
  rw [canonical_eq_shown ha, canonical_eq_shown hb, List.cons_inj_right,
    slashed_inj (names_shown a).parts (names_shown b).parts]

/-! ## The longest beginning -/

theorem slashed_pieces (text : Text) : slashed (pieces '/' text) = text ++ ['/'] := by
  induction text with
  | nil => rfl
  | cons c rest ih =>
    by_cases hc : c = '/'
    · rw [hc, Text.pieces_cons_separator, slashed_cons, ih]
      rfl
    · rw [Text.pieces_cons hc]
      cases hpieces : pieces '/' rest with
      | nil => exact absurd hpieces (Text.pieces_ne_nil '/' rest)
      | cons piece more =>
        rw [hpieces, slashed_cons] at ih
        rw [Text.onFirst, slashed_cons, List.cons_append, ih]
        rfl

/-- A beginning of a text that a capacity has room for, with one place free, and that does not end
inside a component. -/
structure Beginning (text : Text) (capacity : Int) (part : Text) : Prop where
  isPrefix : part <+: text
  endsInSlash : endsInSlash part = true
  length_le : (part.length : Int) ≤ capacity - 1

theorem slashed_prefix_slashed {a b : List Text} (h : a <+: b) : slashed a <+: slashed b := by
  obtain ⟨rest, rfl⟩ := h
  rw [slashed_append]
  exact List.prefix_append ..

/-- A beginning of components with a slash after each is made of components, where it ends in a
slash. -/
theorem exists_prefix_of_slashed {components : List Text} (hslash : ∀ c ∈ components, '/' ∉ c)
    {part : Text} (hpart : part <+: slashed components) (hends : endsInSlash part = true) :
    ∃ first more, first :: more <+: components ∧ part = slashed (first :: more) := by
  obtain ⟨front, rfl⟩ : ∃ front, part = front ++ ['/'] :=
    List.getLast?_eq_some_iff.mp (by simpa [endsInSlash, Text.endsIn] using hends)
  obtain ⟨rest, htext⟩ := hpart
  have hpieces := pieces_slashed hslash
  rw [← htext, List.append_assoc, List.singleton_append, Text.pieces_append] at hpieces
  have hbegins := congrArg List.dropLast hpieces
  rw [List.dropLast_concat, List.dropLast_append_of_ne_nil (Text.pieces_ne_nil '/' rest)]
    at hbegins
  obtain ⟨first, more, hfront⟩ := List.exists_cons_of_ne_nil (Text.pieces_ne_nil '/' front)
  rw [hfront] at hbegins
  exact ⟨first, more, ⟨_, hbegins⟩, by rw [← hfront, slashed_pieces]⟩

/-- The beginnings of components that there is room for are those of what fits. -/
theorem beginning_slashed_iff {components : List Text} (hslash : ∀ c ∈ components, '/' ∉ c)
    {capacity : Int} {part : Text} :
    Beginning (slashed components) capacity part ↔
      ∃ first more, first :: more <+: fitting (capacity - 1).toNat components ∧
        part = slashed (first :: more) := by
  constructor
  · rintro ⟨hbeginning, hends, hlength⟩
    obtain ⟨first, more, hbegins, rfl⟩ := exists_prefix_of_slashed hslash hbeginning hends
    exact ⟨first, more, prefix_fitting_iff.mpr ⟨hbegins, by omega⟩, rfl⟩
  · rintro ⟨first, more, hbegins, rfl⟩
    obtain ⟨hbeginning, hlength⟩ := prefix_fitting_iff.mp hbegins
    have hsome : 0 < (slashed (first :: more)).length := by
      rw [slashed_cons, List.length_append, List.length_cons]
      omega
    exact ⟨slashed_prefix_slashed hbeginning, endsInSlash_slashed (List.cons_ne_nil _ _), by omega⟩

/-- A canonical form is written from the components of the whole one that there is room for; in
front of the first slash of an absolute path stands an empty one. -/
theorem exists_components {capacity : Int} (h : 3 ≤ capacity) (path : Text) :
    ∃ components, (∀ c ∈ components, '/' ∉ c) ∧ whole .posix path = slashed components ∧
      canonical .posix path capacity =
        slashed (standing (fitting (capacity - 1).toNat components)) ∧
      (isAbsolute .posix path = false ∨ fitting (capacity - 1).toNat components ≠ []) := by
  have hroom : 0 < (capacity - 1).toNat := by omega
  have hbehind : (capacity - 1 - 1).toNat = (capacity - 1).toNat - 1 := by omega
  cases habsolute : isAbsolute .posix path with
  | true =>
    refine ⟨[] :: location path, ?_, whole_absolute habsolute, ?_, .inr ?_⟩
    · exact List.forall_mem_cons.mpr ⟨List.not_mem_nil, (names_location path).parts.no_slash⟩
    · rw [canonical_eq_fitting habsolute, hbehind, fitting, if_pos (by simpa using hroom), standing,
        if_neg (List.cons_ne_nil _ _), slashed_cons]
      rfl
    · rw [fitting, if_pos (by simpa using hroom)]
      exact List.cons_ne_nil _ _
  | false =>
    by_cases hne : path = []
    · subst hne
      refine ⟨[[]], by simp, rfl, ?_, .inl rfl⟩
      rw [fitting, if_pos (by simpa using hroom)]
      rfl
    · exact ⟨_, (normal_stackOf path).standing.parts.reverse.no_slash,
        whole_relative habsolute hne, canonical_eq_standing habsolute hne capacity, .inl rfl⟩

/-- A canonical form is shorter than its capacity. It is the longest beginning of the whole one that
the capacity has room for; a relative path of which not even the first component fits is a dot. -/
theorem canonical_longest {capacity : Int} (h : 3 ≤ capacity) (path : Text) :
    ((canonical .posix path capacity).length : Int) ≤ capacity - 1 ∧
      (Beginning (whole .posix path) capacity (canonical .posix path capacity) ∧
          (∀ part, Beginning (whole .posix path) capacity part →
            part.length ≤ (canonical .posix path capacity).length) ∨
        isAbsolute .posix path = false ∧
          (∀ part, ¬Beginning (whole .posix path) capacity part) ∧
          canonical .posix path capacity = ['.', '/']) := by
  obtain ⟨components, hslash, hwhole, hcanonical, hrelative⟩ := exists_components h path
  rw [hwhole, hcanonical]
  cases hfits : fitting (capacity - 1).toNat components with
  | nil =>
    have hnone : ∀ part, ¬Beginning (slashed components) capacity part := by
      intro part hpart
      obtain ⟨first, more, hbegins, -⟩ := (beginning_slashed_iff hslash).mp hpart
      rw [hfits] at hbegins
      exact List.cons_ne_nil _ _ (List.prefix_nil.mp hbegins)
    rw [hfits] at hrelative
    exact ⟨by simp [standing]; omega, .inr ⟨by simpa using hrelative, hnone, rfl⟩⟩
  | cons first more =>
    have hlongest : Beginning (slashed components) capacity (slashed (first :: more)) := by
      exact (beginning_slashed_iff hslash).mpr ⟨first, more, hfits ▸ List.prefix_rfl, rfl⟩
    rw [standing, if_neg (List.cons_ne_nil _ _)]
    refine ⟨hlongest.length_le, .inl ⟨hlongest, fun part hpart => ?_⟩⟩
    obtain ⟨_, _, hbegins, rfl⟩ := (beginning_slashed_iff hslash).mp hpart
    rw [hfits] at hbegins
    exact (slashed_prefix_slashed hbegins).length_le

theorem canonical_longest_cut :
    let path := "a/../../b/./cd".toList
    whole .posix path = "../b/cd/".toList ∧ canonical .posix path 6 = "../b/".toList ∧
      canonical .posix path 3 = "./".toList ∧
      (∀ part, Beginning (whole .posix path) 6 part → part.length ≤ 5) ∧
      ∀ part, ¬Beginning (whole .posix path) 3 part := by
  intro path
  have hwhole : whole .posix path = "../b/cd/".toList := by decide +kernel
  have hsix : canonical .posix path 6 = "../b/".toList := by decide +kernel
  have hthree : canonical .posix path 3 = "./".toList := by decide +kernel
  refine ⟨hwhole, hsix, hthree, ?_, ?_⟩
  · rcases (canonical_longest (show 3 ≤ 6 by decide) path).2 with ⟨-, hlongest⟩ | ⟨-, -, hdot⟩
    · rwa [hsix] at hlongest
    · rw [hsix] at hdot
      exact absurd hdot (by decide)
  · rcases (canonical_longest (show 3 ≤ 3 by decide) path).2 with ⟨hfits, -⟩ | ⟨-, hnone, -⟩
    · rw [hwhole, hthree] at hfits
      exact absurd hfits.isPrefix (by decide)
    · exact hnone

end PaneCompletion.Path
