import PaneCompletion.Proofs.Path.Normal

/-!
# Relative paths inside a directory

What a relative path means inside a directory is where its components lead from there, and its
canonical form leads to the same place. The components run through two stacks, one below the
directory and one of their own, and the second leads from the directory to what is on the first
(`along`): a component does the same to both (`along_enter`), also where it climbs above the start
of the path or out of the dot that anchors it.

1. where a stack leads;
2. one component;
3. relative paths;
4. canonical forms inside a directory.
-/

namespace PaneCompletion.Path

open Text (pieces)

/-! ## Where a stack leads -/

/-- Where the components on a stack lead from a location, innermost name first. -/
def along (start : List Text) : List Text → List Text
  | [] => start
  | top :: below => enter .posix true (along start below) top

theorem along_eq_foldl (start stack : List Text) :
    along start stack = stack.reverse.foldl (enter .posix true) start := by
  induction stack with
  | nil => rfl
  | cons top below ih =>
    rw [along, ih, List.reverse_cons, List.foldl_append]
    rfl

theorem names_along {start : List Text} (hstart : Names start) {stack : List Text}
    (hstack : Parts stack) : Names (along start stack) := by
  rw [along_eq_foldl]
  exact names_foldl_enter hstack.reverse.no_slash hstart

theorem along_standing (start stack : List Text) :
    along start (standing stack) = along start stack := by
  by_cases hnil : stack = []
  · subst hnil
    rfl
  · rw [standing, if_neg hnil]

/-! ## One component -/

theorem enter_parents (rooted : Bool) (stack : List Text) :
    enter .posix rooted stack ['.', '.'] = leave rooted stack := by
  simp [enter]

/-- Leaving what a stack leads to is leaving the stack. -/
theorem along_leave {start : List Text} (hstart : Names start) {stack : List Text}
    (h : Normal false stack) :
    along start (leave false stack) = leave true (along start stack) := by
  cases h with
  | ups n =>
    -- there is nothing to leave but steps up, and one more of them is made
    have hleave : leave false (List.replicate n ['.', '.']) =
        ['.', '.'] :: List.replicate n ['.', '.'] := by
      cases n <;> rfl
    rw [hleave, along, enter_parents]
  | here => exact enter_parents true start
  | @name _ top below hname hbelow =>
    have hnames := names_along hstart hbelow.parts
    rw [leave_name false hname, along, enter_name true hname, leave_name true hname]

/-- A component does to what a stack leads to what it does to the stack. -/
theorem along_enter {start : List Text} (hstart : Names start) {stack : List Text}
    (h : Normal false stack) {component : Text} (hslash : '/' ∉ component) :
    along start (enter .posix false stack component) =
      enter .posix true (along start stack) component := by
  rcases enter_forms false stack hslash with ⟨hstay, heq⟩ | ⟨rfl, heq⟩ | ⟨hname, heq⟩
  · rw [heq]
    rcases hstay with rfl | rfl
    · rfl
    · rfl
  · rw [heq, along_leave hstart h, enter_parents]
  · rw [heq]
    rfl

theorem along_foldl_enter {start : List Text} (hstart : Names start) {stack : List Text}
    (h : Normal false stack) {components : List Text} (hslash : ∀ c ∈ components, '/' ∉ c) :
    along start (components.foldl (enter .posix false) stack) =
      components.foldl (enter .posix true) (along start stack) := by
  induction components generalizing stack with
  | nil => rfl
  | cons c more ih =>
    have hc := hslash c List.mem_cons_self
    rw [List.foldl_cons, List.foldl_cons, ← along_enter hstart h hc]
    exact ih (h.enter hc) fun d hd => hslash d (List.mem_cons_of_mem _ hd)

/-! ## Relative paths -/

/-- The stack of a relative path leads where the path leads. -/
theorem along_stackOf {start : List Text} (hstart : Names start) (path : Text) :
    along start (stackOf .posix false false path) = walk start path := by
  have hslash : ∀ c ∈ pieces '/' path, '/' ∉ c := fun _ hc => Text.not_mem_of_mem_pieces hc
  rw [stackOf_eq, walk]
  cases hpieces : pieces '/' path with
  | nil => rfl
  | cons first more =>
    rw [hpieces] at hslash
    have hfirst := hslash first List.mem_cons_self
    have hmore := fun c hc => hslash c (List.mem_cons_of_mem _ hc)
    rcases opening_cases false first with ⟨rfl, heq⟩ | heq
    · rw [stackFrom, heq, along_foldl_enter hstart .here hmore]
      rfl
    · rw [stackFrom, heq, along_foldl_enter hstart (normal_nil.enter hfirst) hmore,
        along_enter hstart normal_nil hfirst]
      rfl

theorem walk_slashed (start : List Text) {parts : List Text} (h : Parts parts) :
    walk start (slashed parts) = parts.foldl (enter .posix true) start := by
  rw [walk, pieces_slashed h.no_slash, List.foldl_append]
  rfl

/-- What is written of a relative path leads where the path leads. -/
theorem walk_whole {start : List Text} (hstart : Names start) {path : Text}
    (h : isAbsolute .posix path = false) : walk start (whole .posix path) = walk start path := by
  by_cases hne : path = []
  · subst hne
    rfl
  · rw [whole_relative h hne, walk_slashed start (normal_stackOf path).standing.parts.reverse,
      ← along_eq_foldl, along_standing, along_stackOf hstart]

/-! ## Canonical forms inside a directory -/

/-- Inside a directory a relative path means what its canonical form means there, and what it means
inside the canonical form of the directory. -/
theorem canonical_nested {directory path : Text}
    (hdirectory : isAbsolute .posix directory = true) (hpath : isAbsolute .posix path = false)
    (hdirectoryWhole : Untruncated .posix directory) (hpathWhole : Untruncated .posix path) :
    canonical .posix (directory ++ '/' :: path) =
        canonical .posix (directory ++ '/' :: canonical .posix path) ∧
      canonical .posix (directory ++ '/' :: canonical .posix path) =
        canonical .posix (canonical .posix directory ++ path) := by
  have hnames := names_walk names_nil directory
  have hplain : location (directory ++ '/' :: path) = (walk (walk [] directory) path).reverse := by
    rw [location, walk_append]
  have hinner : location (directory ++ '/' :: canonical .posix path) =
      (walk (walk [] directory) path).reverse := by
    rw [location, walk_append, show canonical .posix path = whole .posix path from hpathWhole,
      walk_whole hnames hpath]
  have houter : location (canonical .posix directory ++ path) =
      (walk (walk [] directory) path).reverse := by
    have hstem := congrArg List.reverse (location_stem (names_location directory))
    rw [location, List.reverse_reverse] at hstem
    rw [hdirectoryWhole.canonical_eq hdirectory, cons_slashed, List.append_assoc, location,
      List.singleton_append, walk_append, hstem, location, List.reverse_reverse]
  have houterAbsolute : isAbsolute .posix (canonical .posix directory ++ path) = true := by
    rw [hdirectoryWhole.canonical_eq hdirectory]
    rfl
  refine ⟨canonical_congr (isAbsolute_append hdirectory _) (isAbsolute_append hdirectory _) ?_,
    canonical_congr (isAbsolute_append hdirectory _) houterAbsolute ?_⟩
  · rw [hplain, hinner]
  · rw [hinner, houter]

theorem canonical_nested_climbing :
    let directory := "/a/./b//".toList
    let path := "./c/../../../../d/.".toList
    canonical .posix path = "../../../d/".toList ∧
      canonical .posix (directory ++ '/' :: path) = "/d/".toList ∧
      canonical .posix (directory ++ '/' :: canonical .posix path) = "/d/".toList ∧
      canonical .posix (canonical .posix directory ++ path) = "/d/".toList := by
  intro directory path
  have hplain : canonical .posix (directory ++ '/' :: path) = "/d/".toList := by decide +kernel
  have hdirectory : isAbsolute .posix directory = true := by decide
  have hpath : isAbsolute .posix path = false := by decide
  obtain ⟨hinner, houter⟩ :=
    canonical_nested hdirectory hpath (by decide +kernel) (by decide +kernel)
  exact ⟨by decide +kernel, hplain, hinner ▸ hplain, houter ▸ hinner ▸ hplain⟩

end PaneCompletion.Path
