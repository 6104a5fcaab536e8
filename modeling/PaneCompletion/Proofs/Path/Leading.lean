import PaneCompletion.Proofs.Path.Folded

/-!
# Relative paths behind one anchor

Behind the same anchor, letter case aside, the relative path spells out the way from the base: up
to where the names part, and down what is left of the path, as it comes back when it is read on
its own (`wholeRelative_alike`). It leads to the path, unless what is left begins with a drive: with
nothing to climb out of that is read as an absolute path, and otherwise it loses the dots behind the
drive (`leadsTo_alike_iff`). Whether the answer is cut is left aside here (`wholeRelative`).

1. answers;
2. the way from one path to another;
3. where the way leads;
4. answers that are absolute.
-/

namespace PaneCompletion.Path

open Text (pieces)

variable {anchor other rest more : Text} {s t : List Text}

/-! ## Answers -/

/-- Steps up and what is written behind them of a text, without a slash at the end; a dot where that
is nothing. -/
def answer (ups rest tail : Text) : Text :=
  let result := dropSlash (if rest.isEmpty ∨ tail = ['.', '/'] then ups else ups ++ tail)
  if result.isEmpty then ['.'] else result

/-- The relative path with all that is left of the path, whether there is room for it or not. -/
def wholeRelative (os : Platform) (path base : Text) : Text :=
  let path := dropSlash (canonical os path)
  let base := dropSlash (canonical os base)
  if onDifferentDrives os path base then path
  else
    let shared := sharedEnd os path base 0 ((componentEnds path).zip (componentEnds base))
    let rest := path.drop shared
    let rest := if Text.startsWith rest ['/'] then rest.drop 1 else rest
    answer (climb (depth (canonical os (base.drop shared)))) rest (whole os rest)

theorem length_le_dropSlash (text : Text) : text.length ≤ (dropSlash text).length + 1 := by
  rw [dropSlash]
  split
  · rw [List.length_dropLast]
    omega
  · omega

theorem length_le_answer (ups : Text) {rest tail : Text} (hrest : rest ≠ [])
    (htail : tail ≠ ['.', '/']) :
    ups.length + tail.length ≤ (answer ups rest tail).length + 1 := by
  have hbody : (if rest.isEmpty ∨ tail = ['.', '/'] then ups else ups ++ tail) = ups ++ tail :=
    if_neg (by simp [hrest, htail])
  have hlength := length_le_dropSlash (ups ++ tail)
  rw [List.length_append] at hlength
  simp only [answer, hbody]
  split
  · next hnil =>
    rw [List.isEmpty_iff.mp hnil] at hlength
    exact hlength.trans (by simp)
  · exact hlength

theorem answer_canonical {os : Platform} {ups rest : Text}
    (h : (answer ups rest (whole os rest)).length + 1 < limit) :
    answer ups rest (canonical os rest ((limit : Int) - ups.length)) =
      answer ups rest (whole os rest) := by
  by_cases hrest : rest = []
  · simp [answer, hrest]
  · by_cases hhere : whole os rest = ['.', '/']
    · rw [canonical_eq_here hrest _ hhere, hhere]
    · have hlength := length_le_answer ups hrest hhere
      rw [canonical_eq_whole_of_le]
      omega

/-- An answer that there is room for, with a slash behind it and one place free, is not cut. -/
theorem relative_eq_wholeRelative {os : Platform} {path base : Text}
    (h : (wholeRelative os path base).length + 1 < limit) :
    relative os path base = wholeRelative os path base := by
  simp only [wholeRelative] at h
  simp only [relative, wholeRelative]
  split
  · rfl
  · next hdrives =>
    rw [if_neg hdrives] at h
    exact answer_canonical h

/-- An answer leads to a path, from the base or, if it is absolute, by itself. -/
def LeadsTo (os : Platform) (path base answer : Text) : Prop :=
  equal os (if isAbsolute os answer then answer else base ++ '/' :: answer) path = true

instance (os : Platform) (path base answer : Text) : Decidable (LeadsTo os path base answer) :=
  inferInstanceAs (Decidable (_ = _))

theorem spelled_eq {components : List Text} (h : ∀ c ∈ components, c ≠ []) :
    spelled components = if (Text.joined ['/'] components).isEmpty then ['.'] else
      Text.joined ['/'] components := by
  by_cases hnil : components = []
  · subst hnil
    rfl
  · rw [spelled, if_neg hnil, if_neg]
    simpa using Text.joined_ne_nil hnil h

theorem parts_ups_append (n : Nat) {names : List Text} (h : Parts names) :
    Parts (List.replicate n ['.', '.'] ++ names) := by
  intro c hc
  rcases List.mem_append.mp hc with hup | hdown
  · rw [List.eq_of_mem_replicate hup]
    decide
  · exact h c hdown

/-- Steps up and names behind them, as they come back, make one path. -/
theorem answer_joined (n : Nat) {names : List Text} (h : GoDown names) :
    answer (climb n) (Text.joined ['/'] names) (whole .windows (Text.joined ['/'] names)) =
      spelled (List.replicate n ['.', '.'] ++ undotted names) := by
  have hundotted := goDown_undotted h
  have htext : Text.joined ['/'] (List.replicate n ['.', '.'] ++ undotted names) =
      dropSlash (climb n ++ slashed (undotted names)) := by
    rw [climb_eq, ← slashed_append, dropSlash_slashed]
  have hbody : (if (Text.joined ['/'] names).isEmpty ∨
        whole .windows (Text.joined ['/'] names) = ['.', '/'] then climb n
      else climb n ++ whole .windows (Text.joined ['/'] names)) =
      climb n ++ slashed (undotted names) := by
    by_cases hne : names = []
    · subst hne
      exact (List.append_nil _).symm
    · have hrest := Text.joined_ne_nil (s := ['/']) hne fun c hc => (h.parts c hc).1
      rw [whole_windows_joined h hne, if_neg (by simp [hrest, slashed_ne_here hundotted.names])]
  rw [spelled_eq fun c hc => (parts_ups_append n hundotted.parts c hc).1, htext, ← hbody]
  rfl

theorem exists_dropSlash (c d e : Char) (rest : Text) :
    ∃ text, dropSlash (c :: d :: e :: rest) = c :: d :: text := by
  rw [dropSlash]
  split
  · exact ⟨_, by rw [List.dropLast_cons_cons, List.dropLast_cons_cons]⟩
  · exact ⟨_, rfl⟩

theorem dropSlash_isPrefix (text : Text) : dropSlash text <+: text := by
  rw [dropSlash]
  split
  · exact List.dropLast_prefix text
  · exact List.prefix_rfl

theorem not_slash_answer (rest : Text) {tail : Text} (h : ¬['/'] <+: tail) :
    ¬['/'] <+: answer (climb 0) rest tail := by
  have hresult : ¬['/'] <+: dropSlash (if rest.isEmpty ∨ tail = ['.', '/'] then climb 0
      else climb 0 ++ tail) := by
    intro hslash
    have hbody := hslash.trans (dropSlash_isPrefix _)
    split at hbody
    · exact absurd hbody (by decide)
    · exact h hbody
  simp only [answer]
  generalize dropSlash _ = result at hresult ⊢
  split
  · decide
  · exact hresult

/-- What begins with a step up is not absolute. -/
theorem not_isAbsolute_answer (n : Nat) (rest tail : Text) :
    isAbsolute .windows (answer (climb (n + 1)) rest tail) = false := by
  obtain ⟨text, htext⟩ : ∃ text, dropSlash (if rest.isEmpty ∨ tail = ['.', '/'] then climb (n + 1)
      else climb (n + 1) ++ tail) = '.' :: '.' :: text := by
    split
    · exact exists_dropSlash '.' '.' '/' (climb n)
    · exact exists_dropSlash '.' '.' '/' (climb n ++ tail)
  simp only [answer, htext]
  rfl

/-! ## The way from one path to another -/

theorem drop_sharedEnd_hosts {name name' : Text} {s t : List Text} (hs : Parts (name :: s))
    (ht : Parts (name' :: t)) :
    let stop := sharedEnd .windows ('/' :: '/' :: name ++ stem s) ('/' :: '/' :: name' ++ stem t) 0
      ((componentEnds ('/' :: '/' :: name ++ stem s)).zip
        (componentEnds ('/' :: '/' :: name' ++ stem t)))
    ('/' :: '/' :: name ++ stem s).drop stop = stem (leftover .windows (name :: s) (name' :: t)) ∧
      ('/' :: '/' :: name' ++ stem t).drop stop =
        stem (leftover .windows (name' :: t) (name :: s)) := by
  have hwalk := drop_sharedEnd_of_alike .windows '/' '/' List.not_mem_nil
    List.not_mem_nil hs ht (.inr (List.cons_ne_nil _ _)) (.inr (List.cons_ne_nil _ _))
    ⟨rfl, beq_self_eq_true _⟩
  rw [stem_cons, stem_cons] at hwalk
  exact hwalk

/-- Behind alike anchors the walk comes to where the names part. -/
theorem drop_sharedEnd_anchored (hanchor : IsAnchor anchor) (hother : IsAnchor other)
    (h : Alike .windows anchor other) (hs : Parts s) (ht : Parts t) :
    let stop := sharedEnd .windows (anchor ++ stem s) (other ++ stem t) 0
      ((componentEnds (anchor ++ stem s)).zip (componentEnds (other ++ stem t)))
    (anchor ++ stem s).drop stop = stem (leftover .windows s t) ∧
      (other ++ stem t).drop stop = stem (leftover .windows t s) := by
  have hcolon : '/' ∉ [':'] := by decide
  have hsome : [':'] ≠ ([] : Text) := List.cons_ne_nil _ _
  cases hanchor with
  | drive hletter =>
    cases hother with
    | drive hletter =>
      exact drop_sharedEnd_of_alike .windows _ _ hcolon hcolon hs ht (.inl hsome) (.inl hsome) h
    | host hne hslash => exact absurd h.2 (not_same_drive_host hletter _)
  | host hne hslash =>
    cases hother with
    | drive hletter => exact absurd h.symm.2 (not_same_drive_host hletter _)
    | host hne' hslash' =>
      have hwalk := drop_sharedEnd_hosts (List.forall_mem_cons.mpr ⟨⟨hne, hslash⟩, hs⟩)
        (List.forall_mem_cons.mpr ⟨⟨hne', hslash'⟩, ht⟩)
      rwa [leftover_cons_of_alike (alike_host_iff.mp h),
        leftover_cons_of_alike (alike_host_iff.mp h.symm)] at hwalk

/-- Each name that is left of a base is climbed out of. -/
theorem depth_canonical_windows_stem {names : List Text} (h : GoDown names)
    (hfit : ('/' :: slashed names).length < limit) :
    depth (canonical .windows (stem names)) = names.length := by
  have hpieces := pieces_stem h.parts.no_slash
  have hshort : shortened (stem names) = stem names := by
    refine shortened_eq_self fun c hc => ?_
    rw [hpieces] at hc
    rcases List.mem_cons.mp hc with rfl | hc
    · rfl
    · exact shortDots_of_moves (h c hc).2
  rw [canonical_plain (splitAnchor_stem h.parts), hshort]
  exact depth_canonical_stem h.names hfit

theorem Anchored.length_leftover_lt (h : Anchored anchor rest s) (t : List Text) :
    ('/' :: slashed (leftover .windows s t)).length < limit := by
  obtain ⟨front, -, hs, -⟩ := exists_alike_append .windows s t
  by_cases hne : s = []
  · subst hne
    rw [leftover_nil_left]
    decide
  · have hlength := h.length_lt hne
    have hle := length_slashed_le_append front (leftover .windows s t)
    rw [← hs] at hle
    rw [List.length_append, List.length_cons] at hlength
    rw [List.length_cons]
    omega

theorem GoDown.leftover (h : GoDown s) (t : List Text) : GoDown (leftover .windows s t) := by
  obtain ⟨front, -, hs, -⟩ := exists_alike_append .windows s t
  rw [hs] at h
  exact h.of_append.2

/-- Behind the same anchor, letter case aside, the answer goes up from where the names part, and
down what is left of the path, as it comes back. -/
theorem wholeRelative_alike (hpath : Anchored anchor rest s) (hbase : Anchored other more t)
    (h : Alike .windows anchor other) :
    wholeRelative .windows (anchor ++ '/' :: rest) (other ++ '/' :: more) =
      spelled (List.replicate (leftover .windows t s).length ['.', '.'] ++
        undotted (leftover .windows s t)) := by
  have hdrives : onDifferentDrives .windows (anchor ++ stem s) (other ++ stem t) = false := by
    simp [onDifferentDrives_eq hpath.isAnchor hbase.isAnchor, h.2]
  obtain ⟨hdown, hup⟩ := drop_sharedEnd_anchored hpath.isAnchor hbase.isAnchor h
    hpath.goDown.parts hbase.goDown.parts
  have hdepth := depth_canonical_windows_stem (hbase.goDown.leftover s)
    (hbase.length_leftover_lt s)
  simp only [wholeRelative, hpath.dropSlash_eq, hbase.dropSlash_eq, hdrives, hdown, hup, hdepth,
    drop_first_slash, answer_joined _ (hpath.goDown.leftover t), Bool.false_eq_true, if_false]

/-! ## Where the way leads -/

theorem foldl_enter_spelled {components : List Text} (hslash : ∀ c ∈ components, '/' ∉ c)
    (stack : List Text) :
    ((pieces '/' (spelled components)).map shortDots).foldl (enter .posix true) stack =
      (components.map shortDots).foldl (enter .posix true) stack := by
  rw [pieces_spelled hslash]
  split
  · next hnil =>
    subst hnil
    rfl
  · rfl

variable {front front' up down : List Text}

/-- From a base the answer climbs out of what the base has left, and goes down from there. -/
theorem Anchored.canonical_append_spelled (h : Anchored other more (front' ++ up))
    (hdown : GoDown down) :
    canonical .windows (other ++ '/' :: more ++ '/' ::
        spelled (List.replicate up.length ['.', '.'] ++ down)) =
      (Frame.mk other true true).fit limit (front' ++ down).reverse := by
  have hslash := (parts_ups_append up.length hdown.parts).no_slash
  have hups : (List.replicate up.length ['.', '.']).map shortDots =
      List.replicate up.length ['.', '.'] := List.map_replicate
  have hclimbed : (front' ++ up).reverse.drop up.length = front'.reverse := by
    rw [List.reverse_append, List.drop_left' (List.length_reverse ..)]
  rw [List.append_assoc, List.cons_append, canonical_rooted h.isAnchor, behind_append, h.behind_eq,
    foldl_enter_spelled hslash, List.map_append, hups, hdown.map_shortDots, List.foldl_append,
    foldl_enter_parents _ h.goDown.names.reverse, hclimbed, foldl_enter_names true hdown.names,
    List.reverse_append]

theorem map_lower_eq_of_alike (h : List.Forall₂ (Alike .windows) front front') :
    front.map Text.lower = front'.map Text.lower := by
  induction h with
  | nil => rfl
  | cons hab _ ih =>
    rw [List.map_cons, List.map_cons, ih]
    exact congrArg (· :: _) (same_iff.mp hab.2)

theorem length_slashed_eq_of_alike (h : List.Forall₂ (Alike .windows) front front') :
    (slashed front).length = (slashed front').length := by
  induction h with
  | nil => rfl
  | cons hab _ ih =>
    rw [slashed_cons, slashed_cons, List.length_append, List.length_append, List.length_cons,
      List.length_cons, ih, hab.1]

/-- Names that come back as they are lead to the path. -/
theorem equal_append_spelled (hpath : Anchored anchor rest (front ++ down))
    (hbase : Anchored other more (front' ++ up)) (h : Alike .windows anchor other)
    (hfront : List.Forall₂ (Alike .windows) front front') :
    equal .windows (other ++ '/' :: more ++ '/' ::
      spelled (List.replicate up.length ['.', '.'] ++ down)) (anchor ++ '/' :: rest) = true := by
  have hdown := hpath.goDown.of_append.2
  have hnames : GoDown (front' ++ down) := hbase.goDown.of_append.1.append hdown
  have hlower : (front ++ down).map Text.lower = (front' ++ down).map Text.lower := by
    rw [List.map_append, List.map_append, map_lower_eq_of_alike hfront]
  have hlength : (other ++ '/' :: slashed (front' ++ down)).length =
      (anchor ++ '/' :: slashed (front ++ down)).length := by
    rw [List.length_append, List.length_append, h.1, List.length_cons, List.length_cons,
      slashed_append, slashed_append, List.length_append, List.length_append,
      length_slashed_eq_of_alike hfront]
  have hroom : front' ++ down ≠ [] →
      ((other ++ '/' :: slashed (front' ++ down)).length : Int) ≤ (limit : Int) - 1 := by
    intro hsome
    have hpathSome : front ++ down ≠ [] := by
      intro hnone
      rw [hnone] at hlower
      exact hsome (List.map_eq_nil_iff.mp hlower.symm)
    have hlt := hpath.length_lt hpathSome
    omega
  rw [equal_windows_iff, hbase.canonical_append_spelled hdown,
    fit_rooted hnames.parts hroom, hpath.canonical_eq,
    Text.lower_append_slash, Text.lower_append_slash, lower_slashed, lower_slashed, hlower]
  exact congrArg (· ++ _) (same_iff.mp h.2).symm

/-- Names that come back without the dots behind a drive lead to another place. -/
theorem not_equal_append_spelled {first : Text} {more' : List Text}
    (hpath : Anchored anchor rest (front ++ first :: more'))
    (hbase : Anchored other more (front' ++ up))
    (hfront : List.Forall₂ (Alike .windows) front front') (hdots : hasDottedDrive first = true) :
    equal .windows (other ++ '/' :: more ++ '/' ::
      spelled (List.replicate up.length ['.', '.'] ++ undotted (first :: more')))
        (anchor ++ '/' :: rest) = false := by
  rw [Bool.eq_false_iff, Ne, equal_windows_iff]
  intro hequal
  have hdown := hpath.goDown.of_append.2
  have hundotted := goDown_undotted hdown
  have hnames : GoDown (front' ++ undotted (first :: more')) :=
    hbase.goDown.of_append.1.append hundotted
  obtain ⟨part, hpart, hwritten⟩ := exists_fit_rooted other hnames.parts limit
  rw [hbase.canonical_append_spelled hundotted, hwritten, hpath.canonical_eq] at hequal
  have hlower := (lower_anchored_inj hbase.isAnchor hpath.isAnchor hequal).2
  rw [lower_slashed_inj (hnames.parts.of_isPrefix hpart) hpath.goDown.parts, List.map_append,
    map_lower_eq_of_alike hfront] at hlower
  have hlength := congrArg List.length hlower
  rw [List.length_map, List.length_append, List.length_map] at hlength
  -- what is written goes at least as far as the names part
  obtain ⟨tail, rfl⟩ : front' <+: part :=
    List.prefix_of_prefix_length_le (List.prefix_append _ _) hpart (by omega)
  rw [List.map_append] at hlower
  exact map_lower_undotted_ne hdown hdots ((List.prefix_append_right_inj front').mp hpart)
    (List.append_cancel_left hlower)

/-- What is left of a path behind an anchor is no path that is equal to it. -/
theorem not_equal_spelled {first : Text} {more' : List Text}
    (hpath : Anchored anchor rest (front ++ first :: more')) :
    equal .windows (spelled (undotted (first :: more'))) (anchor ++ '/' :: rest) = false := by
  rw [Bool.eq_false_iff, Ne, equal_windows_iff, hpath.canonical_eq]
  intro hequal
  have hdown := hpath.goDown.of_append.2
  have hundotted := goDown_undotted hdown
  have hsome : undotted (first :: more') ≠ [] := by
    obtain ⟨_, _, heq, -⟩ := exists_undotted hdown
    rw [heq]
    exact List.cons_ne_nil _ _
  have hwhole : whole .windows (spelled (undotted (first :: more'))) =
      slashed (undotted (first :: more')) := by
    rw [spelled, if_neg hsome, whole_windows_joined hundotted hsome, undotted_undotted hdown]
  have hlt := hpath.length_lt (by simp)
  have hshorter := length_slashed_undotted_le (first :: more')
  rw [slashed_append, List.length_append, List.length_cons, List.length_append] at hlt
  rw [canonical_eq_whole_of_le (by rw [hwhole]; omega), hwhole] at hequal
  -- lower case leaves the number of pieces as it is
  have hpieces := congrArg (fun text => (pieces '/' text).length) hequal
  simp only [Text.pieces_lower, List.length_map, Text.pieces_append, List.length_append,
    pieces_slashed hundotted.parts.no_slash, pieces_slashed hpath.goDown.parts.no_slash] at hpieces
  have hanchor := List.length_pos_iff.mpr (Text.pieces_ne_nil '/' anchor)
  have hle := length_undotted_le hdown
  simp only [List.length_cons, List.length_nil] at hpieces hle
  omega

/-! ## Answers that are absolute -/

theorem isAbsolute_spelled_ups (n : Nat) (components : List Text) :
    isAbsolute .windows (spelled (List.replicate (n + 1) ['.', '.'] ++ components)) = false := by
  rw [List.replicate_succ, List.cons_append, spelled, if_neg (List.cons_ne_nil _ _),
    joined_cons_stem]
  rfl

theorem isAbsolute_of_not_slash {text : Text} (h : ¬['/'] <+: text) :
    isAbsolute .windows text = hasDrive text := by
  have hone : Text.startsWith text ['/'] = false := by
    rwa [Bool.eq_false_iff, Ne, Text.startsWith_iff]
  have htwo : Text.startsWith text ['/', '/'] = false := by
    rw [Bool.eq_false_iff, Ne, Text.startsWith_iff]
    exact fun hslashes => h ((List.prefix_append ['/'] ['/']).trans hslashes)
  simp [isAbsolute, hone, htwo]

theorem isAbsolute_spelled_cons {first : Text} {more' : List Text} (h : Parts (first :: more')) :
    isAbsolute .windows (spelled (first :: more')) = hasDrive first := by
  rw [spelled, if_neg (List.cons_ne_nil _ _), isAbsolute_of_not_slash (not_slash_joined h),
    joined_cons_stem, hasDrive_append_stem h.of_cons.1.1]

/-- Names that are left of a path lead on from where it parts with a base: those that begin with a
drive do not where there is nothing to climb out of, and elsewhere do if no dots stand behind it. -/
def LeadsOn (up down : List Text) : Prop :=
  ∀ first ∈ down.head?, if up = [] then hasDrive first = false else hasDottedDrive first = false

instance (up down : List Text) : Decidable (LeadsOn up down) :=
  inferInstanceAs (Decidable (∀ first ∈ down.head?, _))

theorem leadsTo_iff_equal {path base answer : Text} (h : isAbsolute .windows answer = false) :
    LeadsTo .windows path base answer ↔ equal .windows (base ++ '/' :: answer) path = true := by
  rw [LeadsTo, h]
  rfl

/-- Behind the same anchor the answer leads to the path exactly if what is left of it leads on. -/
theorem leadsTo_alike_iff (hpath : Anchored anchor rest s) (hbase : Anchored other more t)
    (h : Alike .windows anchor other) :
    LeadsTo .windows (anchor ++ '/' :: rest) (other ++ '/' :: more)
        (wholeRelative .windows (anchor ++ '/' :: rest) (other ++ '/' :: more)) ↔
      LeadsOn (leftover .windows t s) (leftover .windows s t) := by
  rw [wholeRelative_alike hpath hbase h]
  obtain ⟨front, front', hs, ht, hfront⟩ := exists_alike_append .windows s t
  generalize leftover .windows s t = down at hs ⊢
  generalize leftover .windows t s = up at ht ⊢
  subst hs ht
  have hequal := equal_append_spelled hpath hbase h hfront
  cases down with
  | nil =>
    have hrelative : isAbsolute .windows
        (spelled (List.replicate up.length ['.', '.'] ++ undotted [])) = false := by
      cases up with
      | nil => rfl
      | cons gone others => exact isAbsolute_spelled_ups _ _
    exact iff_of_true ((leadsTo_iff_equal hrelative).mpr hequal) (by simp [LeadsOn])
  | cons first more' =>
    have hdown := hpath.goDown.of_append.2
    cases up with
    | nil =>
      cases hdrive : hasDrive first with
      | false =>
        have hdots := hasDottedDrive_of_no_drive hdrive
        have hrelative := (isAbsolute_spelled_cons hdown.parts).trans hdrive
        rw [undotted_cons_of_no_dots hdots]
        exact iff_of_true ((leadsTo_iff_equal hrelative).mpr hequal) (by simp [LeadsOn, hdrive])
      | true =>
        refine iff_of_false ?_ (by simp [LeadsOn, hdrive])
        obtain ⟨_, _, hundotted, hgoDown, hfirst, -⟩ := exists_undotted hdown
        have habsolute := (isAbsolute_spelled_cons hgoDown.parts).trans (hfirst.trans hdrive)
        have hnot := not_equal_spelled hpath
        rw [hundotted] at hnot ⊢
        simp [LeadsTo, habsolute, hnot]
    | cons gone others =>
      have hrelative : isAbsolute .windows (spelled (List.replicate (gone :: others).length
          ['.', '.'] ++ undotted (first :: more'))) = false :=
        isAbsolute_spelled_ups others.length _
      rw [leadsTo_iff_equal hrelative]
      cases hdots : hasDottedDrive first with
      | false =>
        rw [undotted_cons_of_no_dots hdots]
        exact iff_of_true hequal (by simp [LeadsOn, hdots])
      | true =>
        rw [not_equal_append_spelled hpath hbase hfront hdots]
        exact iff_of_false Bool.false_ne_true (by simp [LeadsOn, hdots])

end PaneCompletion.Path
