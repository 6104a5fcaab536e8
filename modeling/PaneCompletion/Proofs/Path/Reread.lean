import PaneCompletion.Proofs.Path.Anchor
import PaneCompletion.Proofs.Path.Fitting
import PaneCompletion.Proofs.Text.Offset

/-!
# Canonical forms read again on Windows

Behind an anchor, what is written comes back when it is read. Without an anchor a path is simplified
as elsewhere, once its runs of dots are dots (`canonical_plain`), and its canonical form has no
others. But components may come to the front that look like a drive, when `..` has taken away what
stood before them. They are then read as one, and what follows the colon as a component of its own.
That makes a difference where it is a dot or a run of dots (`hasDottedDrive`), which behind a drive
is left out. The other canonical form that is no more one when it is read again is that of two
slashes: they are taken for a host without a name, and a third is written behind them.

1. components of a canonical form;
2. paths without an anchor;
3. settled forms;
4. what is settled;
5. canonical forms read again.
-/

namespace PaneCompletion.Path

open Text (pieces)

/-! ## Components of a canonical form -/

/-- On the stack of a relative path are its components, dots and steps up. -/
theorem mem_stackOf {path c : Text} (h : c ∈ stackOf .posix false false path) :
    c = ['.'] ∨ c = ['.', '.'] ∨ c ∈ pieces '/' path := by
  rw [stackOf_eq] at h
  cases hpieces : pieces '/' path with
  | nil => exact absurd hpieces (Text.pieces_ne_nil '/' path)
  | cons first more =>
    rw [hpieces, stackFrom] at h
    rcases opening_cases false first with ⟨-, hopening⟩ | hopening
    · rw [hopening] at h
      rcases mem_foldl_enter h with hdot | hup | ⟨hmore, -⟩
      · exact .inl (List.mem_singleton.mp hdot)
      · exact .inr (.inl hup)
      · exact .inr (.inr (List.mem_cons_of_mem first hmore))
    · have hfold : c ∈ (first :: more).foldl (enter .posix false) [] := by
        rwa [hopening] at h
      rcases mem_foldl_enter hfold with hnone | hup | ⟨hpiece, -⟩
      · cases hnone
      · exact .inr (.inl hup)
      · exact .inr (.inr hpiece)

/-- A canonical form has no components but those of the path, dots and steps up. -/
theorem exists_slashed_canonical (path : Text) (capacity : Int) :
    ∃ components, (∀ c ∈ components, '/' ∉ c) ∧
      canonical .posix path capacity = slashed components ∧
      ∀ c ∈ components, c = [] ∨ c = ['.'] ∨ c = ['.', '.'] ∨ c ∈ pieces '/' path := by
  cases habsolute : isAbsolute .posix path with
  | true =>
    obtain ⟨hnames, hwritten⟩ := canonical_eq_of_absolute habsolute capacity
    refine ⟨[] :: _, ?_, hwritten, List.forall_mem_cons.mpr ⟨.inl rfl, fun c hc => ?_⟩⟩
    · exact List.forall_mem_cons.mpr ⟨List.not_mem_nil, hnames.reverse.parts.no_slash⟩
    · have hwalk := (Frame.kept_suffix _ _ _).subset (List.mem_reverse.mp hc)
      rw [location, List.reverse_reverse, walk] at hwalk
      rcases mem_foldl_enter hwalk with hnone | hup | ⟨hpiece, -⟩
      · cases hnone
      · exact .inr (.inr (.inl hup))
      · exact .inr (.inr (.inr hpiece))
  | false =>
    by_cases hne : path = []
    · subst hne
      exact ⟨[[]], by simp, rfl, by simp⟩
    · obtain ⟨hnormal, hwritten⟩ := canonical_eq_of_relative habsolute hne capacity
      refine ⟨_, hnormal.standing.parts.reverse.no_slash, hwritten, fun c hc => ?_⟩
      rw [List.mem_reverse, standing] at hc
      split at hc
      · exact .inr (.inl (List.mem_singleton.mp hc))
      · exact .inr (mem_stackOf ((Frame.kept_suffix _ _ _).subset hc))

/-! ## Paths without an anchor -/

/-- A path with each run of dots cut to the dot that it stands for. -/
def shortened (path : Text) : Text := Text.joined ['/'] ((pieces '/' path).map shortDots)

theorem pieces_shortened (path : Text) :
    pieces '/' (shortened path) = (pieces '/' path).map shortDots := by
  refine Text.pieces_joined (by simpa using Text.pieces_ne_nil '/' path) fun c hc => ?_
  obtain ⟨component, hcomponent, rfl⟩ := List.mem_map.mp hc
  exact no_slash_shortDots (Text.not_mem_of_mem_pieces hcomponent)

theorem shortened_eq_self {path : Text} (h : ∀ c ∈ pieces '/' path, shortDots c = c) :
    shortened path = path := by
  rw [shortened, List.map_congr_left h, List.map_id']
  exact Text.joined_pieces '/' path

theorem stackOf_windows (rooted : Bool) (path : Text) :
    stackOf .windows rooted false path = stackOf .posix rooted false (shortened path) := by
  rw [stackOf_eq, pieces_shortened, stackOf]
  cases pieces '/' path with
  | nil => rfl
  | cons first more =>
    show more.foldl (enter .windows rooted) (opening .windows rooted false first) = _
    rw [List.map_cons, stackFrom, foldl_enter_windows, opening_windows]

/-- Cutting runs of dots leaves something of a path, and with a slash in front if there was one. -/
theorem shortened_cons (c : Char) (rest : Text) :
    ∃ d text, shortened (c :: rest) = d :: text ∧ (d = '/' ↔ c = '/') := by
  by_cases hc : c = '/'
  · have hmore : (pieces '/' rest).map shortDots ≠ [] := by simpa using Text.pieces_ne_nil '/' rest
    refine ⟨'/', Text.joined ['/'] ((pieces '/' rest).map shortDots), ?_, by simp [hc]⟩
    rw [hc, shortened, Text.pieces_cons_separator, List.map_cons, Text.joined_cons _ _ hmore]
    rfl
  · obtain ⟨first, more, hpieces⟩ : ∃ first more,
        pieces '/' (c :: rest) = (c :: first) :: more := by
      rw [Text.pieces_cons hc]
      cases pieces '/' rest with
      | nil => exact ⟨_, _, rfl⟩
      | cons first more => exact ⟨_, _, rfl⟩
    obtain ⟨d, text, hshort, hd⟩ : ∃ d text, shortDots (c :: first) = d :: text ∧ d ≠ '/' := by
      rw [shortDots]
      split
      · exact ⟨_, _, rfl, by decide⟩
      · exact ⟨_, _, rfl, hc⟩
    rw [shortened, hpieces, List.map_cons, hshort]
    cases more with
    | nil => exact ⟨d, text, rfl, iff_of_false hd hc⟩
    | cons next others => exact ⟨d, _, rfl, iff_of_false hd hc⟩

theorem startsWith_shortened (path : Text) :
    Text.startsWith (shortened path) ['/'] = Text.startsWith path ['/'] := by
  cases path with
  | nil => rfl
  | cons c rest =>
    obtain ⟨d, text, hshort, hd⟩ := shortened_cons c rest
    rw [hshort, Bool.eq_iff_iff, Text.startsWith_singleton_iff, Text.startsWith_singleton_iff]
    simpa using hd

theorem isEmpty_shortened (path : Text) : (shortened path).isEmpty = path.isEmpty := by
  cases path with
  | nil => rfl
  | cons c rest =>
    obtain ⟨d, text, hshort, -⟩ := shortened_cons c rest
    rw [hshort]
    rfl

theorem shortened_ne_nil {path : Text} (h : path ≠ []) : shortened path ≠ [] := by
  rwa [ne_eq, ← List.isEmpty_iff, isEmpty_shortened, List.isEmpty_iff]

theorem splitAnchor_posix (path : Text) : splitAnchor .posix path = ([], path) := rfl

/-- But for dots, nothing on the stack of a path stands for the directory that it is in. -/
theorem moves_of_mem_shortened {path c : Text}
    (h : c ∈ stackOf .posix false false (shortened path)) (hdot : c ≠ ['.']) :
    isHere .windows c = false := by
  rcases mem_stackOf h with rfl | rfl | hpiece
  · exact absurd rfl hdot
  · rfl
  · rw [pieces_shortened] at hpiece
    obtain ⟨component, -, rfl⟩ := List.mem_map.mp hpiece
    exact moves_of_shortDots (shortDots_shortDots component) hdot

theorem frameOf_plain {path : Text} (h : splitAnchor .windows path = ([], path)) :
    frameOf .windows path = frameOf .posix (shortened path) := by
  simp only [frameOf, h, splitAnchor_posix, startsWith_shortened, isEmpty_shortened]

/-- Without an anchor a path is simplified as elsewhere, once its runs of dots are dots. -/
theorem canonical_plain {path : Text} (h : splitAnchor .windows path = ([], path))
    (capacity : Int) :
    canonical .windows path capacity = canonical .posix (shortened path) capacity := by
  simp only [canonical, h, frameOf_plain h, splitAnchor_posix, List.isEmpty_nil, Bool.not_true,
    stackOf_windows]

theorem whole_plain {path : Text} (h : splitAnchor .windows path = ([], path)) :
    whole .windows path = whole .posix (shortened path) := by
  simp only [whole, h, frameOf_plain h, splitAnchor_posix, List.isEmpty_nil, Bool.not_true,
    stackOf_windows]

/-- What is written of a path without an anchor has no runs of dots in it. -/
theorem shortened_canonical {path : Text} (h : splitAnchor .windows path = ([], path))
    (capacity : Int) :
    shortened (canonical .windows path capacity) = canonical .windows path capacity := by
  obtain ⟨components, hslash, hwritten, hshort⟩ :=
    exists_slashed_canonical (shortened path) capacity
  rw [canonical_plain h, hwritten]
  refine shortened_eq_self fun c hc => ?_
  rw [pieces_slashed hslash, List.mem_append, List.mem_singleton] at hc
  rcases hc with hc | rfl
  · rcases hshort c hc with rfl | rfl | rfl | hpiece
    · rfl
    · rfl
    · rfl
    · rw [pieces_shortened] at hpiece
      obtain ⟨component, -, rfl⟩ := List.mem_map.mp hpiece
      exact shortDots_shortDots component
  · rfl

/-! ## Settled forms -/

/-- Whether a path begins with a drive that a dot or a run of dots stands behind. -/
def hasDottedDrive (path : Text) : Bool :=
  hasDrive path && isHere .windows ((path.drop 2).takeWhile (· ≠ '/'))

theorem hasDottedDrive_of_no_drive {path : Text} (h : hasDrive path = false) :
    hasDottedDrive path = false := by
  rw [hasDottedDrive, h, Bool.false_and]

/-- A path written out behind an anchor, with nothing in it to simplify and room for all of it. -/
inductive Settled (capacity : Int) : Text → Prop
  | rooted {anchor : Text} {names : List Text} (hanchor : IsAnchor anchor) (hnames : Names names)
      (hmoves : ∀ c ∈ names, isHere .windows c = false)
      (hroom : names ≠ [] → ((anchor ++ '/' :: slashed names).length : Int) ≤ capacity - 1) :
      Settled capacity (anchor ++ '/' :: slashed names)
  | drive {letter : Char} {parts : List Text} (hletter : Text.isLetter letter = true)
      (hne : parts ≠ []) (hnormal : Normal false parts.reverse)
      (hmoves : ∀ c ∈ parts, isHere .windows c = false)
      (hroom : ((letter :: ':' :: slashed parts).length : Int) ≤ capacity - 1) :
      Settled capacity (letter :: ':' :: slashed parts)

theorem takeWhile_slash {first : Text} (h : '/' ∉ first) (rest : Text) :
    (first ++ '/' :: rest).takeWhile (· ≠ '/') = first := by
  have hfirst : ∀ c ∈ first, decide (c ≠ '/') = true := by
    intro c hc
    rw [decide_eq_true_iff]
    rintro rfl
    exact h hc
  rw [List.takeWhile_append_of_pos hfirst]
  simp

theorem hasDottedDrive_drive {letter : Char} (h : Text.isLetter letter = true) (rest : Text) :
    hasDottedDrive (letter :: ':' :: rest) = isHere .windows (rest.takeWhile (· ≠ '/')) := by
  rw [hasDottedDrive, show hasDrive (letter :: ':' :: rest) = true from h]
  rfl

theorem Normal.append_names {names : List Text} (h : Names names) {rooted : Bool}
    {stack : List Text} (hstack : Normal rooted stack) : Normal rooted (names ++ stack) := by
  induction names with
  | nil => exact hstack
  | cons name more ih =>
    obtain ⟨hname, hmore⟩ := h.of_cons
    exact (ih hmore).name hname

theorem not_slash_prefix_slashed {parts : List Text} (h : Parts parts) :
    ¬['/'] <+: slashed parts := by
  cases parts with
  | nil => simp
  | cons first more =>
    obtain ⟨⟨hne, hslash⟩, -⟩ := h.of_cons
    obtain ⟨c, rest, rfl⟩ := List.exists_cons_of_ne_nil hne
    obtain ⟨hc, -⟩ : '/' ≠ c ∧ '/' ∉ rest := by simpa using hslash
    simpa using hc

/-- Names behind a root that there is room for are all written; for none there always is. -/
theorem fit_rooted {anchor : Text} {names : List Text} (h : Parts names) {capacity : Int}
    (hroom : names ≠ [] → ((anchor ++ '/' :: slashed names).length : Int) ≤ capacity - 1) :
    (Frame.mk anchor true true).fit capacity names.reverse = anchor ++ '/' :: slashed names := by
  have hrender := render_rooted anchor true h
  by_cases hnone : names = []
  · subst hnone
    exact hrender
  · rw [Frame.fit_of_le, List.reverse_reverse, hrender]
    rw [List.reverse_reverse, hrender]
    exact hroom hnone

/-- Of names behind a root a beginning is written. -/
theorem exists_fit_rooted (anchor : Text) {names : List Text} (h : Parts names) (capacity : Int) :
    ∃ part, part <+: names ∧
      (Frame.mk anchor true true).fit capacity names.reverse = anchor ++ '/' :: slashed part := by
  have hpart : ((Frame.mk anchor true true).kept capacity names.reverse).reverse <+: names := by
    rw [← List.reverse_suffix, List.reverse_reverse]
    exact Frame.kept_suffix _ _ _
  refine ⟨_, hpart, ?_⟩
  rw [Frame.fit_eq_render, render_rooted anchor true (h.of_isPrefix hpart)]

theorem Settled.canonical_eq {capacity : Int} {text : Text} (h : Settled capacity text) :
    canonical .windows text capacity = text := by
  cases h with
  | @rooted anchor names hanchor hnames hmoves hroom =>
    have hbehind : behind true (slashed names) = names.reverse := by
      have hback := behind_slashed hnames.reverse.normal fun c hc =>
        hmoves c (List.mem_reverse.mp hc)
      rwa [List.reverse_reverse] at hback
    rw [canonical_rooted hanchor, hbehind, fit_rooted hnames.parts hroom]
  | @drive letter parts hletter hne hnormal hmoves hroom =>
    have hparts : Parts parts := by simpa using hnormal.parts.reverse
    have hbehind : behind false (slashed parts) = parts.reverse := by
      have hback := behind_slashed hnormal fun c hc => hmoves c (List.mem_reverse.mp hc)
      rwa [List.reverse_reverse] at hback
    have hrender := render_drive letter (!(slashed parts).isEmpty) hparts hne
    rw [canonical_drive hletter (not_slash_prefix_slashed hparts), hbehind, Frame.fit_of_le,
      List.reverse_reverse, hrender]
    rw [List.reverse_reverse, hrender]
    exact hroom

theorem Settled.endsOnce {capacity : Int} {text : Text} (h : Settled capacity text) :
    EndsOnce text := by
  cases h with
  | @rooted anchor names hanchor hnames hmoves hroom =>
    refine ⟨anchor ++ stem names, by rw [cons_slashed, List.append_assoc], ?_⟩
    by_cases hnone : names = []
    · rw [hnone, stem_nil, List.append_nil, hanchor.endsIn_eq]
    · have hsome : stem names ≠ [] := by
        rw [← cons_joined hnone]
        exact List.cons_ne_nil _ _
      rw [endsIn_append _ hsome, endsIn_stem hnames.parts]
  | @drive letter parts hletter hne hnormal hmoves hroom =>
    have hparts : Parts parts := by simpa using hnormal.parts.reverse
    have hsome : Text.joined ['/'] parts ≠ [] :=
      Text.joined_ne_nil hne fun c hc => (hparts c hc).1
    refine ⟨[letter, ':'] ++ Text.joined ['/'] parts, ?_, ?_⟩
    · rw [List.append_assoc, joined_append_slash hne]
      rfl
    · rw [endsIn_append _ hsome, endsIn_joined hparts]

theorem Settled.hasDottedDrive_eq {capacity : Int} {text : Text} (h : Settled capacity text) :
    hasDottedDrive text = false := by
  cases h with
  | @rooted anchor names hanchor hnames hmoves hroom =>
    cases hanchor with
    | drive hletter => simp [hasDottedDrive, isHere]
    | host hne hslash => rfl
  | @drive letter parts hletter hne hnormal hmoves hroom =>
    have hparts : Parts parts := by simpa using hnormal.parts.reverse
    obtain ⟨first, more, rfl⟩ := List.exists_cons_of_ne_nil hne
    rw [hasDottedDrive_drive hletter, slashed_cons, takeWhile_slash hparts.of_cons.1.2]
    exact hmoves first List.mem_cons_self

/-! ## What is settled -/

theorem settled_rooted {anchor : Text} (h : IsAnchor anchor) (rest : Text) (capacity : Int) :
    Settled capacity (canonical .windows (anchor ++ '/' :: rest) capacity) := by
  have hkept := (normal_behind true rest).kept ⟨anchor, true, true⟩ capacity
  have hrender := render_rooted anchor true hkept.parts.reverse
  rw [canonical_rooted h, Frame.fit_eq_render, hrender]
  refine .rooted h hkept.names.reverse (fun c hc => ?_) fun hsome => ?_
  · exact moves_of_mem_behind ((Frame.kept_suffix _ _ _).subset (List.mem_reverse.mp hc))
  · rw [← hrender]
    exact Frame.length_render_kept_le (by simpa using hsome)

theorem settled_drive {letter : Char} (h : Text.isLetter letter = true) (rest : Text)
    (capacity : Int) : Settled capacity (canonical .windows (letter :: ':' :: rest) capacity) := by
  by_cases hrest : ['/'] <+: rest
  · obtain ⟨more, rfl⟩ := hrest
    exact settled_rooted (.drive h) more capacity
  · rw [canonical_drive h hrest, Frame.fit_eq_render]
    generalize hframe : Frame.mk [letter, ':'] false (!rest.isEmpty) = frame
    have hnormal := (normal_behind false rest).kept frame capacity
    have hsuffix := Frame.kept_suffix frame capacity (behind false rest)
    have hroom := @Frame.length_render_kept_le frame capacity (behind false rest)
    generalize frame.kept capacity (behind false rest) = kept at *
    subst hframe
    by_cases hnone : kept = []
    · subst hnone
      exact .rooted (.drive h) names_nil (fun _ hc => nomatch hc) (absurd rfl)
    · have hsome : kept.reverse ≠ [] := by simpa using hnone
      rw [render_drive letter _ hnormal.parts.reverse hsome] at hroom ⊢
      refine .drive h hsome (by rwa [List.reverse_reverse]) (fun c hc => ?_) (hroom hnone)
      exact moves_of_mem_behind (hsuffix.subset (List.mem_reverse.mp hc))

/-- What is written of a path with an anchor is settled, unless the path is two slashes. -/
theorem settled_canonical {path : Text} (hne : path ≠ ['/', '/'])
    (hanchor : splitAnchor .windows path ≠ ([], path)) (capacity : Int) :
    Settled capacity (canonical .windows path capacity) := by
  rcases anchor_cases path with hplain | hslashes | ⟨letter, rest, hletter, rfl⟩ |
    ⟨name, rest, hname, hslash, hrest, rfl⟩
  · exact absurd hplain hanchor
  · exact absurd hslashes hne
  · exact settled_drive hletter rest capacity
  · rcases hrest with rfl | ⟨more, rfl⟩
    · rw [List.append_nil, canonical_share hname hslash]
      exact .rooted (.host hname hslash) names_nil (fun _ hc => nomatch hc) (absurd rfl)
    · exact settled_rooted (.host hname hslash) more capacity

theorem exists_cons_of_slashed_drive {parts : List Text} (h : Parts parts) {letter : Char}
    {rest : Text} (hwritten : slashed parts = letter :: ':' :: rest) :
    ∃ first more, parts = (letter :: ':' :: first) :: more ∧
      rest = first ++ '/' :: slashed more := by
  match parts with
  | [] => simp at hwritten
  | [] :: more => exact absurd rfl (h [] List.mem_cons_self).1
  | [c] :: more => simp at hwritten
  | (c :: d :: first) :: more =>
    obtain ⟨rfl, rfl, rfl⟩ : c = letter ∧ d = ':' ∧ first ++ '/' :: slashed more = rest := by
      simpa using hwritten
    exact ⟨first, more, rfl, rfl⟩

/-- Nothing leads in front of a component that begins like a drive. -/
theorem Normal.names_of_drive {stack : List Text} (h : Normal false stack) {letter : Char}
    {first : Text} {more : List Text} (hparts : stack.reverse = (letter :: ':' :: first) :: more) :
    Names ((letter :: ':' :: first) :: more) := by
  obtain ⟨lead, names, hlead, hnames, hups⟩ := h.exists_lead
  rw [hparts] at hlead
  rcases hups with rfl | ⟨n, rfl⟩
  · simp at hlead
  · cases n with
    | zero => rwa [hlead]
    | succ n => simp [List.replicate_succ] at hlead

/-- What begins like a drive when a path without an anchor is written out has names behind it, and
there is room for all of it. -/
theorem exists_front {path : Text} (h : splitAnchor .windows path = ([], path)) {capacity : Int}
    {letter : Char} {rest : Text} (hletter : Text.isLetter letter = true)
    (hwritten : canonical .windows path capacity = letter :: ':' :: rest) :
    ∃ first names, rest = first ++ '/' :: slashed names ∧ '/' ∉ first ∧ Names names ∧
      (∀ c ∈ names, isHere .windows c = false) ∧
      ((letter :: ':' :: rest).length : Int) ≤ capacity - 1 := by
  rw [canonical_plain h] at hwritten
  cases habsolute : isAbsolute .posix (shortened path) with
  | true =>
    obtain ⟨-, hform⟩ := canonical_eq_of_absolute habsolute capacity
    exact absurd (List.cons.inj (hform.symm.trans hwritten)).1 (ne_slash_of_isLetter hletter)
  | false =>
    have hne : shortened path ≠ [] := by
      intro hnil
      rw [hnil, canonical_nil] at hwritten
      simp at hwritten
    obtain ⟨hnormal, hform⟩ := canonical_eq_of_relative habsolute hne capacity
    have hsuffix := Frame.kept_suffix ⟨[], false, true⟩ capacity
      (stackOf .posix false false (shortened path))
    have hlength := @Frame.length_render_kept_le ⟨[], false, true⟩ capacity
      (stackOf .posix false false (shortened path))
    rw [render_standing hnormal, ← hform, hwritten] at hlength
    rw [hwritten] at hform
    generalize Frame.kept _ _ _ = kept at *
    obtain ⟨first, more, hparts, rfl⟩ :=
      exists_cons_of_slashed_drive hnormal.standing.parts.reverse hform.symm
    obtain ⟨hname, hmore⟩ := (hnormal.standing.names_of_drive hparts).of_cons
    have hsome : kept ≠ [] := by
      rintro rfl
      cases hparts
    rw [standing, if_neg hsome] at hparts
    refine ⟨first, more, rfl, fun h => hname.no_slash (by simp [h]), hmore, fun c hc => ?_,
      hlength hsome⟩
    refine moves_of_mem_shortened (hsuffix.subset ?_) (hmore c hc).ne_here
    rw [← List.mem_reverse, hparts]
    exact List.mem_cons_of_mem _ hc

/-- What is written of a path without an anchor and begins like a drive is settled, unless a dot or
a run of dots stands behind the colon. -/
theorem settled_of_front {path : Text} (h : splitAnchor .windows path = ([], path))
    {capacity : Int} {letter : Char} {rest : Text} (hletter : Text.isLetter letter = true)
    (hwritten : canonical .windows path capacity = letter :: ':' :: rest)
    (hdots : isHere .windows (rest.takeWhile (· ≠ '/')) = false) :
    Settled capacity (letter :: ':' :: rest) := by
  obtain ⟨first, names, rfl, hslash, hnames, hmoves, hroom⟩ := exists_front h hletter hwritten
  rw [takeWhile_slash hslash] at hdots
  by_cases hfirst : first = []
  · subst hfirst
    exact .rooted (.drive hletter) hnames hmoves fun _ => hroom
  · rw [← slashed_cons] at hroom ⊢
    refine .drive hletter (List.cons_ne_nil _ _) ?_ (List.forall_mem_cons.mpr ⟨hdots, hmoves⟩) hroom
    rw [List.reverse_cons]
    refine Normal.append_names hnames.reverse ?_
    by_cases hparent : first = ['.', '.']
    · subst hparent
      exact .ups 1
    · refine normal_nil.name ⟨hfirst, ?_, hparent, hslash⟩
      rintro rfl
      cases hdots

/-! ## Canonical forms read again -/

theorem hasDottedDrive_of_plain {path : Text} (h : splitAnchor .windows path = ([], path)) :
    hasDottedDrive path = false := by
  refine hasDottedDrive_of_no_drive (Bool.eq_false_iff.mpr fun hdrive => ?_)
  obtain ⟨letter, rest, hletter, rfl⟩ := exists_of_hasDrive hdrive
  rw [splitAnchor_drive hletter] at h
  simp at h

/-- Read again, what is written of a path without an anchor stays as it is, unless it begins with a
drive and dots. -/
theorem canonical_canonical_of_plain {path : Text} (h : splitAnchor .windows path = ([], path))
    (capacity : Int) :
    canonical .windows (canonical .windows path capacity) capacity =
        canonical .windows path capacity ↔
      hasDottedDrive (canonical .windows path capacity) = false := by
  have hno : ¬['/', '/'] <:+: canonical .windows path capacity := by
    rw [canonical_plain h]
    exact (canonical_stable (shortened path) capacity capacity).2.1.no_slashes
  rcases anchor_cases (canonical .windows path capacity) with hplain | hslashes |
    ⟨letter, rest, hletter, hwritten⟩ | ⟨name, rest, -, -, -, hwritten⟩
  · refine iff_of_true ?_ (hasDottedDrive_of_plain hplain)
    rw [canonical_plain hplain, shortened_canonical h, canonical_plain h, canonical_canonical,
      Int.min_self]
  · exact absurd (hslashes ▸ List.infix_rfl) hno
  · rw [hwritten, hasDottedDrive_drive hletter]
    constructor
    · intro hstable
      have hsettled := settled_drive hletter rest capacity
      rw [hstable] at hsettled
      rw [← hasDottedDrive_drive hletter]
      exact hsettled.hasDottedDrive_eq
    · exact fun hdots => (settled_of_front h hletter hwritten hdots).canonical_eq
  · refine absurd ?_ hno
    rw [hwritten]
    exact (List.prefix_append ['/', '/'] (name ++ rest)).isInfix

/-- A canonical form ends in one slash, and stays as it is when it is read again, unless it is that
of two slashes or begins with a drive and dots. -/
theorem canonical_windows_stable_iff (path : Text) (capacity : Int) :
    (EndsOnce (canonical .windows path capacity) ↔ path ≠ ['/', '/']) ∧
      (canonical .windows (canonical .windows path capacity) capacity =
          canonical .windows path capacity ↔
        path ≠ ['/', '/'] ∧ hasDottedDrive (canonical .windows path capacity) = false) := by
  by_cases hslashes : path = ['/', '/']
  · subst hslashes
    have hwritten : canonical .windows ['/', '/'] capacity = ['/', '/', '/'] := rfl
    have hagain : canonical .windows ['/', '/', '/'] capacity = ['/'] := rfl
    rw [hwritten, hagain]
    refine ⟨iff_of_false ?_ (by simp), by simp⟩
    rintro ⟨front, htext, hends⟩
    have hfront : front = ['/', '/'] := (List.append_cancel_right htext).symm
    rw [hfront] at hends
    cases hends
  · rw [and_iff_right hslashes, iff_true_right hslashes]
    by_cases hplain : splitAnchor .windows path = ([], path)
    · refine ⟨?_, canonical_canonical_of_plain hplain capacity⟩
      rw [canonical_plain hplain]
      exact endsOnce_canonical _ capacity
    · have hsettled := settled_canonical hslashes hplain capacity
      exact ⟨hsettled.endsOnce, iff_of_true hsettled.canonical_eq hsettled.hasDottedDrive_eq⟩

/-- Of two slashes three are written, of which one is left; and behind a drive that has come to the
front a dot is left out. -/
theorem not_canonical_windows_stable :
    canonical .windows "//".toList = "///".toList ∧
      canonical .windows (canonical .windows "//".toList) = "/".toList ∧
      canonical .windows "a/../C:.".toList = "C:./".toList ∧
      canonical .windows (canonical .windows "a/../C:.".toList) = "C:/".toList := by
  decide +kernel

end PaneCompletion.Path
