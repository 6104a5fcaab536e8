import PaneCompletion.Proofs.Path.Leading

/-!
# Relative paths between anchors

`..` cannot climb over an anchor, so from a base the path behind another anchor can only be answered
as it is. That is done between drives, but not between hosts or where a host and a drive meet: the
walk along two texts takes the slashes and the name of a host for components like others, and the
answer then leads to a place behind the anchor of the base.

1. behind another anchor;
2. drives;
3. hosts;
4. where relative paths lead.
-/

namespace PaneCompletion.Path

open Text (pieces)

variable {anchor other rest more : Text} {s t : List Text}

/-! ## Behind another anchor -/

/-- From a base nothing leads behind another anchor. -/
theorem not_equal_append_slash (hpath : Anchored anchor rest s) (hother : IsAnchor other)
    (h : ¬Platform.same .windows anchor other = true) (answer : Text) :
    equal .windows (other ++ '/' :: more ++ '/' :: answer) (anchor ++ '/' :: rest) = false := by
  rw [Bool.eq_false_iff, Ne, equal_windows_iff, hpath.canonical_eq, List.append_assoc,
    List.cons_append, canonical_rooted hother]
  intro hequal
  have hparts := (goDown_behind (more ++ '/' :: answer)).parts
  obtain ⟨part, -, hwritten⟩ := exists_fit_rooted other hparts limit
  rw [List.reverse_reverse] at hwritten
  rw [hwritten] at hequal
  exact h (same_iff.mpr (lower_anchored_inj hother hpath.isAnchor hequal).1.symm)

theorem not_leadsTo_of_relative (hpath : Anchored anchor rest s) (hother : IsAnchor other)
    (h : ¬Platform.same .windows anchor other = true) {answer : Text}
    (hrelative : isAbsolute .windows answer = false) :
    ¬LeadsTo .windows (anchor ++ '/' :: rest) (other ++ '/' :: more) answer := by
  rw [leadsTo_iff_equal hrelative, not_equal_append_slash hpath hother h]
  exact Bool.false_ne_true

theorem depth_append_slashed (text : Text) {names : List Text} (h : Names names) :
    depth (text ++ '/' :: slashed names) = depth text + names.length := by
  show (pieces '/' (text ++ '/' :: slashed names)).countP counts = _
  rw [Text.pieces_append, pieces_slashed h.parts.no_slash, List.countP_append, List.countP_append,
    countP_counts h]
  rfl

theorem depth_drive {letter : Char} (hletter : Text.isLetter letter = true) :
    depth [letter, ':'] = 1 := by
  show (pieces '/' [letter, ':']).countP counts = 1
  rw [Text.pieces_eq_singleton (no_slash_drive hletter)]
  simp [counts]

theorem depth_host {name : Text} (hne : name ≠ []) (hslash : '/' ∉ name) :
    depth ('/' :: '/' :: name) = if name = ['.'] then 0 else 1 := by
  show (pieces '/' ('/' :: '/' :: name)).countP counts = _
  rw [Text.pieces_cons_separator, Text.pieces_cons_separator, Text.pieces_eq_singleton hslash]
  by_cases hdot : name = ['.']
  · subst hdot
    rfl
  · simp [counts, hne, hdot]

/-- Where nothing is shared, the whole base is climbed out of. -/
theorem wholeRelative_of_stop (hpath : Anchored anchor rest s) (hbase : Anchored other more t)
    (hdrives : (hasDrive anchor && hasDrive other) = false)
    (hstop : sharedEnd .windows (anchor ++ stem s) (other ++ stem t) 0
      ((componentEnds (anchor ++ stem s)).zip (componentEnds (other ++ stem t))) = 0) :
    let text := anchor ++ stem s
    let tail := if Text.startsWith text ['/'] then text.drop 1 else text
    wholeRelative .windows (anchor ++ '/' :: rest) (other ++ '/' :: more) =
      answer (climb (depth other + t.length)) tail (whole .windows tail) := by
  have hnone : onDifferentDrives .windows (anchor ++ stem s) (other ++ stem t) = false := by
    simp [onDifferentDrives_eq hpath.isAnchor hbase.isAnchor, hdrives]
  have hdepth := depth_append_slashed other hbase.goDown.names
  rw [← hbase.canonical_stem] at hdepth
  simp only [wholeRelative, hpath.dropSlash_eq, hbase.dropSlash_eq, hnone, hstop, List.drop_zero,
    hdepth, Bool.false_eq_true, if_false]

/-! ## Drives -/

/-- A path on a drive leads to itself. -/
theorem Anchored.leadsTo_stem (h : Anchored anchor rest s) (hdrive : hasDrive anchor = true)
    (base : Text) : LeadsTo .windows (anchor ++ '/' :: rest) base (anchor ++ stem s) := by
  have habsolute : isAbsolute .windows (anchor ++ stem s) = true := by
    simp [isAbsolute, hasDrive_append_stem h.isAnchor.ne_nil, hdrive]
  rw [LeadsTo, if_pos habsolute]
  exact h.equal_stem

theorem wholeRelative_drives (hpath : Anchored anchor rest s) (hbase : Anchored other more t)
    (hdrive : hasDrive anchor = true) (hdrive' : hasDrive other = true)
    (h : ¬Platform.same .windows anchor other = true) :
    wholeRelative .windows (anchor ++ '/' :: rest) (other ++ '/' :: more) = anchor ++ stem s := by
  have hdrives : onDifferentDrives .windows (anchor ++ stem s) (other ++ stem t) = true := by
    simp [onDifferentDrives_eq hpath.isAnchor hbase.isAnchor, hdrive, hdrive', h]
  simp only [wholeRelative, hpath.dropSlash_eq, hbase.dropSlash_eq, hdrives, if_true]

theorem answer_drive {letter : Char} (hletter : Text.isLetter letter = true) {names : List Text}
    (h : GoDown names) :
    let text := [letter, ':'] ++ stem names
    let tail := if Text.startsWith text ['/'] then text.drop 1 else text
    answer (climb 0) tail (whole .windows tail) = text := by
  intro text tail
  have hdrive := goes_down_of_drive hletter List.not_mem_nil
  have hnames : GoDown ([letter, ':'] :: names) := h.cons hdrive
  have htext : Text.joined ['/'] ([letter, ':'] :: names) = text := joined_cons_stem ..
  have htail : tail = text := by
    have hstart := startsWith_joined hnames.parts
    rw [htext] at hstart
    simp only [tail, hstart, Bool.false_eq_true, if_false]
  have hanswer := answer_joined 0 hnames
  rw [htext, undotted_cons_of_no_dots (hasDottedDrive_bare hletter)] at hanswer
  rw [htail, hanswer]
  exact htext

/-- A path on a drive is answered as it is from a base that has nothing to climb out of: a host
whose name is a dot. -/
theorem leadsTo_drive_host_iff {letter : Char} {name : Text}
    (hpath : Anchored [letter, ':'] rest s) (hbase : Anchored ('/' :: '/' :: name) more t)
    (hletter : Text.isLetter letter = true) (hne : name ≠ []) (hslash : '/' ∉ name) :
    LeadsTo .windows ([letter, ':'] ++ '/' :: rest) ('/' :: '/' :: name ++ '/' :: more)
        (wholeRelative .windows ([letter, ':'] ++ '/' :: rest)
          ('/' :: '/' :: name ++ '/' :: more)) ↔
      name = ['.'] ∧ t = [] := by
  have hcolon : '/' ∉ [':'] := by decide
  have hparts : Parts (name :: t) := List.forall_mem_cons.mpr ⟨⟨hne, hslash⟩, hbase.goDown.parts⟩
  have hstop := sharedEnd_eq_zero .windows letter '/' hcolon List.not_mem_nil
    hpath.goDown.parts hparts (.inl (List.cons_ne_nil _ _)) (.inr (List.cons_ne_nil _ _))
    (by decide)
  rw [stem_cons] at hstop
  have hdrives : (hasDrive [letter, ':'] && hasDrive ('/' :: '/' :: name)) = false := by
    simp [hasDrive]
  rw [wholeRelative_of_stop hpath hbase hdrives hstop, depth_host hne hslash]
  by_cases hbare : name = ['.'] ∧ t = []
  · have hzero : (if name = ['.'] then 0 else 1) + t.length = 0 := by
      rw [if_pos hbare.1, hbare.2]
      rfl
    rw [hzero, answer_drive hletter hpath.goDown]
    exact iff_of_true (hpath.leadsTo_stem hletter _) hbare
  · obtain ⟨n, hdepth⟩ : ∃ n, (if name = ['.'] then 0 else 1) + t.length = n + 1 := by
      refine Nat.exists_eq_succ_of_ne_zero fun hzero => hbare ?_
      obtain ⟨hname, ht⟩ := Nat.add_eq_zero_iff.mp hzero
      exact ⟨by simpa using hname, List.length_eq_zero_iff.mp ht⟩
    rw [hdepth]
    refine iff_of_false ?_ hbare
    exact not_leadsTo_of_relative hpath hbase.isAnchor (not_same_drive_host hletter name)
      (not_isAbsolute_answer n _ _)

/-! ## Hosts -/

theorem not_leadsTo_host_drive {letter : Char} {name : Text}
    (hpath : Anchored ('/' :: '/' :: name) rest s) (hbase : Anchored [letter, ':'] more t)
    (hletter : Text.isLetter letter = true) (hne : name ≠ []) (hslash : '/' ∉ name) :
    ¬LeadsTo .windows ('/' :: '/' :: name ++ '/' :: rest) ([letter, ':'] ++ '/' :: more)
      (wholeRelative .windows ('/' :: '/' :: name ++ '/' :: rest)
        ([letter, ':'] ++ '/' :: more)) := by
  have hcolon : '/' ∉ [':'] := by decide
  have hparts : Parts (name :: s) := List.forall_mem_cons.mpr ⟨⟨hne, hslash⟩, hpath.goDown.parts⟩
  have hstop := sharedEnd_eq_zero .windows '/' letter List.not_mem_nil hcolon
    hparts hbase.goDown.parts (.inr (List.cons_ne_nil _ _)) (.inl (List.cons_ne_nil _ _))
    (by decide)
  rw [stem_cons] at hstop
  have hdrives : (hasDrive ('/' :: '/' :: name) && hasDrive [letter, ':']) = false := by
    simp [hasDrive]
  have hother : ¬Platform.same .windows ('/' :: '/' :: name) [letter, ':'] = true := by
    rw [same_iff, eq_comm, ← same_iff]
    exact not_same_drive_host hletter name
  rw [wholeRelative_of_stop hpath hbase hdrives hstop, depth_drive hletter, Nat.add_comm]
  exact not_leadsTo_of_relative hpath hbase.isAnchor hother (not_isAbsolute_answer _ _ _)

/-- A path on a drive is not equal to one on a host. -/
theorem not_equal_of_drive {found name : Text} (hpath : Anchored ('/' :: '/' :: name) rest s)
    (hdrive : hasDrive found = true) :
    equal .windows found ('/' :: '/' :: name ++ '/' :: rest) = false := by
  rw [Bool.eq_false_iff, Ne, equal_windows_iff, hpath.canonical_eq]
  intro hequal
  have hstart : ['/'] <+: Text.lower (canonical .windows found) := by
    rw [hequal, Text.slash_prefix_lower_iff]
    exact List.prefix_append ['/'] _
  rw [Text.slash_prefix_lower_iff] at hstart
  exact not_slash_of_drive hdrive (anchor_prefix_written .windows found limit).1 hstart

theorem not_leadsTo_hosts {name name' : Text} (hpath : Anchored ('/' :: '/' :: name) rest s)
    (hbase : Anchored ('/' :: '/' :: name') more t) (hne : name ≠ []) (hslash : '/' ∉ name)
    (hne' : name' ≠ []) (hslash' : '/' ∉ name')
    (h : ¬Platform.same .windows ('/' :: '/' :: name) ('/' :: '/' :: name') = true) :
    ¬LeadsTo .windows ('/' :: '/' :: name ++ '/' :: rest) ('/' :: '/' :: name' ++ '/' :: more)
      (wholeRelative .windows ('/' :: '/' :: name ++ '/' :: rest)
        ('/' :: '/' :: name' ++ '/' :: more)) := by
  have hs : Parts (name :: s) := List.forall_mem_cons.mpr ⟨⟨hne, hslash⟩, hpath.goDown.parts⟩
  have ht : Parts (name' :: t) := List.forall_mem_cons.mpr ⟨⟨hne', hslash'⟩, hbase.goDown.parts⟩
  have hnames : ¬Alike .windows name name' := fun halike => h (alike_host_iff.mpr halike).2
  have hdrives : onDifferentDrives .windows ('/' :: '/' :: name ++ stem s)
      ('/' :: '/' :: name' ++ stem t) = false :=
    (onDifferentDrives_eq hpath.isAnchor hbase.isAnchor s t).trans (by simp [hasDrive])
  have hleft := (drop_sharedEnd_hosts hs ht).1
  rw [leftover_cons_of_not_alike hnames] at hleft
  -- how many steps up there are makes no difference, but for whether there are any
  obtain ⟨n, hanswer⟩ : ∃ n, wholeRelative .windows ('/' :: '/' :: name ++ '/' :: rest)
      ('/' :: '/' :: name' ++ '/' :: more) = answer (climb n) (Text.joined ['/'] (name :: s))
        (whole .windows (Text.joined ['/'] (name :: s))) := by
    simp only [wholeRelative, hpath.dropSlash_eq, hbase.dropSlash_eq, hdrives, hleft,
      drop_first_slash, Bool.false_eq_true, if_false]
    exact ⟨_, rfl⟩
  rw [hanswer]
  cases n with
  | succ n => exact not_leadsTo_of_relative hpath hbase.isAnchor h (not_isAbsolute_answer n _ _)
  | zero =>
    have hsome := Text.joined_ne_nil (s := ['/']) (List.cons_ne_nil name s) fun c hc => (hs c hc).1
    have hanswerStart := not_slash_answer (Text.joined ['/'] (name :: s))
      (not_slash_whole hsome (not_slash_joined hs))
    generalize answer (climb 0) (Text.joined ['/'] (name :: s))
      (whole .windows (Text.joined ['/'] (name :: s))) = found at hanswerStart ⊢
    cases habsolute : isAbsolute .windows found with
    | false => exact not_leadsTo_of_relative hpath hbase.isAnchor h habsolute
    | true =>
      have hdrive := (isAbsolute_of_not_slash hanswerStart).symm.trans habsolute
      rw [LeadsTo, if_pos habsolute, not_equal_of_drive hpath hdrive]
      exact Bool.false_ne_true

/-! ## Where relative paths lead -/

/-- When the relative path leads to the path, if nothing is cut on the way. Behind the same anchor,
letter case aside, it does exactly if what is left of the path leads on. From behind another it does
exactly if the path is on a drive, and the base is on a drive too or is nothing but a host whose
name is a dot. Anchors that are the same have to be of one length: they are, but for an I with a dot
above in the name of one host and the two characters that it becomes in the other's. -/
theorem relative_windows_leadsTo_iff {anchor other rest more : Text} (hanchor : IsAnchor anchor)
    (hother : IsAnchor other)
    (hlength : Platform.same .windows anchor other = true → anchor.length = other.length)
    (hpath : Untruncated .windows (anchor ++ '/' :: rest))
    (hbase : Untruncated .windows (other ++ '/' :: more))
    (hwhole : relative .windows (anchor ++ '/' :: rest) (other ++ '/' :: more) =
      wholeRelative .windows (anchor ++ '/' :: rest) (other ++ '/' :: more)) :
    LeadsTo .windows (anchor ++ '/' :: rest) (other ++ '/' :: more)
        (relative .windows (anchor ++ '/' :: rest) (other ++ '/' :: more)) ↔
      if Platform.same .windows anchor other then
        LeadsOn (leftover .windows (locationBehind more) (locationBehind rest))
          (leftover .windows (locationBehind rest) (locationBehind more))
      else hasDrive anchor = true ∧
        (hasDrive other = true ∨ other = "//.".toList ∧ locationBehind more = []) := by
  have hpathWhole := anchored_of_untruncated hanchor hpath
  have hbaseWhole := anchored_of_untruncated hother hbase
  rw [hwhole]
  by_cases hsame : Platform.same .windows anchor other = true
  · rw [if_pos hsame]
    exact leadsTo_alike_iff hpathWhole hbaseWhole ⟨hlength hsame, hsame⟩
  · rw [if_neg hsame]
    cases hanchor with
    | drive hletter =>
      cases hother with
      | drive hletter' =>
        rw [wholeRelative_drives hpathWhole hbaseWhole hletter hletter' hsame]
        exact iff_of_true (hpathWhole.leadsTo_stem hletter _) ⟨hletter, .inl hletter'⟩
      | host hne hslash =>
        rw [leadsTo_drive_host_iff hpathWhole hbaseWhole hletter hne hslash]
        simp [hasDrive, hletter]
    | host hne hslash =>
      refine iff_of_false ?_ (by simp [hasDrive])
      cases hother with
      | drive hletter => exact not_leadsTo_host_drive hpathWhole hbaseWhole hletter hne hslash
      | host hne' hslash' =>
        exact not_leadsTo_hosts hpathWhole hbaseWhole hne hslash hne' hslash' hsame

theorem relative_windows_leadsTo_case :
    let path := ['c', ':'] ++ '/' :: "A/./x/y".toList
    let base := ['C', ':'] ++ '/' :: "a/Z/".toList
    relative .windows path base = "../x/y".toList ∧
      LeadsTo .windows path base (relative .windows path base) := by
  intro path base
  have hanchor : IsAnchor ['c', ':'] := .drive (by decide)
  have hother : IsAnchor ['C', ':'] := .drive (by decide)
  have hpath : Untruncated .windows path := by decide +kernel
  have hbase : Untruncated .windows base := by decide +kernel
  have hwhole : relative .windows path base = wholeRelative .windows path base :=
    relative_eq_wholeRelative (by decide +kernel)
  refine ⟨by decide +kernel, ?_⟩
  exact (relative_windows_leadsTo_iff hanchor hother (fun _ => rfl) hpath hbase hwhole).mpr
    (by decide +kernel)

/-- From one host the path on another is answered as if there were a way; a name that begins with a
drive is answered as an absolute path, or without the dot behind the drive. -/
theorem not_relative_windows_leadsTo :
    (∀ path ∈ ["//h1/x".toList, "C:/d/a:s".toList, "C:/d/a:./s".toList, "//h2/y".toList,
        "C:/d".toList, "C:/d/e".toList], Untruncated .windows path) ∧
      relative .windows "//h1/x".toList "//h2/y".toList = "../../h1/x".toList ∧
      ¬LeadsTo .windows "//h1/x".toList "//h2/y".toList "../../h1/x".toList ∧
      relative .windows "C:/d/a:s".toList "C:/d".toList = "a:s".toList ∧
      ¬LeadsTo .windows "C:/d/a:s".toList "C:/d".toList "a:s".toList ∧
      relative .windows "C:/d/a:./s".toList "C:/d/e".toList = "../a:s".toList ∧
      ¬LeadsTo .windows "C:/d/a:./s".toList "C:/d/e".toList "../a:s".toList := by
  decide +kernel

end PaneCompletion.Path
