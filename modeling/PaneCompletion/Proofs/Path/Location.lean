import PaneCompletion.Path.Canonical
import PaneCompletion.Proofs.Text.Offset
import PaneCompletion.Proofs.Text.Pieces

/-!
# Where a path leads

An absolute path leads, by its text alone, to a location: the names on the way down from the root.
Its components are taken one after the other, and each stays, goes up or goes down one name
(`enter_cases`). The canonical form writes the location out (`whole_absolute`), so it depends on
nothing else in the path.

1. names;
2. one step;
3. walks;
4. writing a location;
5. the canonical form.
-/

namespace PaneCompletion.Path

open Text (pieces)

/-! ## Names -/

/-- A component that goes down. -/
structure IsName (component : Text) : Prop where
  ne_nil : component ≠ []
  ne_here : component ≠ ['.']
  ne_parent : component ≠ ['.', '.']
  no_slash : '/' ∉ component

instance (component : Text) : Decidable (IsName component) :=
  decidable_of_iff
    (component ≠ [] ∧ component ≠ ['.'] ∧ component ≠ ['.', '.'] ∧ '/' ∉ component)
    ⟨fun ⟨hnil, hhere, hparent, hslash⟩ => ⟨hnil, hhere, hparent, hslash⟩,
      fun h => ⟨h.ne_nil, h.ne_here, h.ne_parent, h.no_slash⟩⟩

/-- Components that all go down. -/
def Names (components : List Text) : Prop := ∀ c ∈ components, IsName c

/-- Components with something in each, so that they can be told apart once they are written. -/
def Parts (components : List Text) : Prop := ∀ c ∈ components, c ≠ [] ∧ '/' ∉ c

theorem names_nil : Names [] := fun _ hc => nomatch hc

theorem Names.of_cons {c : Text} {more : List Text} (h : Names (c :: more)) :
    IsName c ∧ Names more :=
  ⟨h c List.mem_cons_self, fun d hd => h d (List.mem_cons_of_mem _ hd)⟩

theorem Names.of_append {a b : List Text} (h : Names (a ++ b)) : Names a ∧ Names b :=
  ⟨fun c hc => h c (List.mem_append_left _ hc), fun c hc => h c (List.mem_append_right _ hc)⟩

theorem Names.of_isPrefix {names part : List Text} (h : Names names) (hpart : part <+: names) :
    Names part :=
  fun c hc => h c (hpart.subset hc)

theorem Names.reverse {names : List Text} (h : Names names) : Names names.reverse :=
  fun c hc => h c (List.mem_reverse.mp hc)

theorem Names.parts {names : List Text} (h : Names names) : Parts names :=
  fun c hc => ⟨(h c hc).ne_nil, (h c hc).no_slash⟩

theorem Parts.of_isPrefix {components part : List Text} (h : Parts components)
    (hpart : part <+: components) : Parts part :=
  fun c hc => h c (hpart.subset hc)

theorem Parts.no_slash {components : List Text} (h : Parts components) :
    ∀ c ∈ components, '/' ∉ c :=
  fun c hc => (h c hc).2

theorem Parts.reverse {components : List Text} (h : Parts components) : Parts components.reverse :=
  fun c hc => h c (List.mem_reverse.mp hc)

theorem Parts.of_cons {c : Text} {more : List Text} (h : Parts (c :: more)) :
    (c ≠ [] ∧ '/' ∉ c) ∧ Parts more :=
  ⟨h c List.mem_cons_self, fun d hd => h d (List.mem_cons_of_mem _ hd)⟩

/-! ## One step -/

@[simp] theorem isHere_posix (component : Text) :
    isHere .posix component = decide (component = ['.']) := by
  rw [isHere, show (Platform.posix == Platform.windows) = false from rfl, Bool.false_and,
    Bool.false_and, Bool.or_false]
  exact beq_eq_decide ..

theorem leave_rooted {stack : List Text} (h : Names stack) : leave true stack = stack.tail := by
  cases stack with
  | nil => rfl
  | cons top below =>
    obtain ⟨htop, -⟩ := h.of_cons
    rw [leave, if_neg htop.ne_parent, if_neg htop.ne_here]
    rfl

/-- A component stays, goes up or goes down. -/
theorem enter_forms (rooted : Bool) (stack : List Text) {component : Text}
    (hslash : '/' ∉ component) :
    (component = [] ∨ component = ['.']) ∧ enter .posix rooted stack component = stack ∨
    component = ['.', '.'] ∧ enter .posix rooted stack component = leave rooted stack ∨
    IsName component ∧ enter .posix rooted stack component = component :: stack := by
  rw [enter, isHere_posix]
  by_cases hnil : component = []
  · exact .inl ⟨.inl hnil, if_pos hnil⟩
  · by_cases hhere : component = ['.']
    · exact .inl ⟨.inr hhere, by simp [hhere]⟩
    · by_cases hparent : component = ['.', '.']
      · exact .inr (.inl ⟨hparent, by simp [hparent]⟩)
      · exact .inr (.inr ⟨⟨hnil, hhere, hparent, hslash⟩, by simp [hnil, hhere, hparent]⟩)

/-- Below the root a component stays, goes up or goes down. -/
theorem enter_cases {stack : List Text} (hstack : Names stack) {component : Text}
    (hslash : '/' ∉ component) :
    (component = [] ∨ component = ['.']) ∧ enter .posix true stack component = stack ∨
    component = ['.', '.'] ∧ enter .posix true stack component = stack.tail ∨
    IsName component ∧ enter .posix true stack component = component :: stack := by
  rw [← leave_rooted hstack]
  exact enter_forms true stack hslash

theorem enter_name (rooted : Bool) {stack : List Text} {name : Text} (h : IsName name) :
    enter .posix rooted stack name = name :: stack := by
  simp [enter, h.ne_nil, h.ne_here, h.ne_parent]

theorem names_enter {stack : List Text} (hstack : Names stack) {component : Text}
    (hslash : '/' ∉ component) : Names (enter .posix true stack component) := by
  rcases enter_cases hstack hslash with ⟨-, h⟩ | ⟨-, h⟩ | ⟨hname, h⟩
  · rwa [h]
  · rw [h]
    exact fun c hc => hstack c (List.mem_of_mem_tail hc)
  · rw [h]
    intro c hc
    rcases List.mem_cons.mp hc with rfl | hc
    · exact hname
    · exact hstack c hc

/-! ## Walks -/

/-- Where components lead from a location, innermost name first. -/
def walk (stack : List Text) (path : Text) : List Text :=
  (pieces '/' path).foldl (enter .posix true) stack

/-- Where an absolute path leads. -/
def location (path : Text) : List Text := (walk [] path).reverse

theorem walk_append (stack : List Text) (a b : Text) :
    walk stack (a ++ '/' :: b) = walk (walk stack a) b := by
  rw [walk, Text.pieces_append, List.foldl_append]
  rfl

/-- A slash more at the beginning leads nowhere else. -/
theorem location_cons_slash (text : Text) : location ('/' :: text) = location text :=
  congrArg List.reverse (walk_append [] [] text)

theorem names_foldl_enter {components : List Text} (hslash : ∀ c ∈ components, '/' ∉ c)
    {stack : List Text} (hstack : Names stack) :
    Names (components.foldl (enter .posix true) stack) := by
  induction components generalizing stack with
  | nil => exact hstack
  | cons c more ih =>
    exact ih (fun d hd => hslash d (List.mem_cons_of_mem _ hd))
      (names_enter hstack (hslash c List.mem_cons_self))

theorem names_walk {stack : List Text} (hstack : Names stack) (path : Text) :
    Names (walk stack path) :=
  names_foldl_enter (fun _ hc => Text.not_mem_of_mem_pieces hc) hstack

theorem names_location (path : Text) : Names (location path) :=
  (names_walk names_nil path).reverse

theorem foldl_enter_names (rooted : Bool) {names : List Text} (h : Names names)
    (stack : List Text) :
    names.foldl (enter .posix rooted) stack = names.reverse ++ stack := by
  induction names generalizing stack with
  | nil => rfl
  | cons name more ih =>
    obtain ⟨hname, hmore⟩ := h.of_cons
    rw [List.foldl_cons, enter_name rooted hname, ih hmore]
    simp

/-! ## Writing a location -/

/-- Names with a slash after each. -/
def slashed (names : List Text) : Text := names.flatMap (· ++ ['/'])

/-- Names with a slash in front of each. -/
def stem (names : List Text) : Text := names.flatMap ('/' :: ·)

@[simp] theorem slashed_nil : slashed [] = [] := rfl

@[simp] theorem slashed_cons (name : Text) (more : List Text) :
    slashed (name :: more) = name ++ '/' :: slashed more := by
  simp [slashed]

theorem slashed_append (a b : List Text) : slashed (a ++ b) = slashed a ++ slashed b :=
  List.flatMap_append

@[simp] theorem stem_nil : stem [] = [] := rfl

@[simp] theorem stem_cons (name : Text) (more : List Text) :
    stem (name :: more) = '/' :: (name ++ stem more) := by
  simp [stem]

theorem cons_slashed (names : List Text) : '/' :: slashed names = stem names ++ ['/'] := by
  induction names with
  | nil => rfl
  | cons name more ih => rw [slashed_cons, ih, stem_cons]; simp

theorem joined_append_slash {names : List Text} (hne : names ≠ []) :
    Text.joined ['/'] names ++ ['/'] = slashed names := by
  induction names with
  | nil => exact absurd rfl hne
  | cons name more ih =>
    cases more with
    | nil => simp [Text.joined]
    | cons next rest =>
      rw [Text.joined_cons _ _ (by simp), List.append_assoc, ih (by simp), slashed_cons name]
      simp

theorem cons_joined {names : List Text} (hne : names ≠ []) :
    '/' :: Text.joined ['/'] names = stem names := by
  have hslashed := congrArg ('/' :: ·) (joined_append_slash hne)
  simp only [cons_slashed] at hslashed
  exact List.append_cancel_right hslashed

theorem length_slashed_le_append (a b : List Text) :
    (slashed b).length ≤ (slashed (a ++ b)).length := by
  rw [slashed_append, List.length_append]
  omega

theorem pieces_slashed {components : List Text} (hslash : ∀ c ∈ components, '/' ∉ c) :
    pieces '/' (slashed components) = components ++ [[]] := by
  induction components with
  | nil => rfl
  | cons c more ih =>
    rw [slashed_cons, Text.pieces_append, Text.pieces_eq_singleton (hslash c (by simp)),
      ih (fun d hd => hslash d (by simp [hd]))]
    rfl

theorem endsIn_stem {components : List Text} (h : Parts components) :
    Text.endsIn '/' (stem components) = false := by
  induction components with
  | nil => rfl
  | cons first more ih =>
    obtain ⟨⟨hne, hfirst⟩, hmore⟩ := h.of_cons
    have hslash : first.getLast? ≠ some '/' := fun hlast => hfirst (List.mem_of_getLast? hlast)
    have hrest : (stem more).getLast? ≠ some '/' := by simpa [Text.endsIn] using ih hmore
    rw [stem_cons, ← List.singleton_append, Text.endsIn, List.getLast?_append, List.getLast?_append]
    cases hlast : (stem more).getLast? with
    | some c => simpa [hlast] using hrest
    | none =>
      obtain ⟨c, hc⟩ := Option.ne_none_iff_exists'.mp (mt List.getLast?_eq_none_iff.mp hne)
      simpa [hc] using hslash

theorem startsWith_joined {components : List Text} (h : Parts components) :
    Text.startsWith (Text.joined ['/'] components) ['/'] = false := by
  cases components with
  | nil => rfl
  | cons first more =>
    obtain ⟨hne, hslash⟩ := h first List.mem_cons_self
    cases first with
    | nil => exact absurd rfl hne
    | cons c rest =>
      obtain ⟨hc, -⟩ : '/' ≠ c ∧ '/' ∉ rest := by simpa using hslash
      cases more with
      | nil => simp [Text.startsWith, Text.joined, List.isPrefixOf, hc]
      | cons next others => simp [Text.startsWith, Text.joined, List.isPrefixOf, hc]

theorem endsIn_joined {components : List Text} (h : Parts components) :
    Text.endsIn '/' (Text.joined ['/'] components) = false := by
  by_cases hne : components = []
  · subst hne
    rfl
  · have hstem := endsIn_stem h
    rw [← cons_joined hne, Text.endsIn, List.getLast?_cons] at hstem
    rw [Text.endsIn]
    cases hjoined : (Text.joined ['/'] components).getLast? with
    | none => rfl
    | some c => rwa [hjoined] at hstem

theorem withSlash_joined {components : List Text} (h : Parts components) (hne : components ≠ []) :
    withSlash (Text.joined ['/'] components) = slashed components := by
  rw [withSlash, endsIn_joined h, if_neg (by simp), joined_append_slash hne]

theorem withSlash_rooted {names : List Text} (h : Names names) :
    withSlash ('/' :: Text.joined ['/'] names) = '/' :: slashed names := by
  by_cases hne : names = []
  · subst hne
    rfl
  · rw [cons_joined hne, withSlash, endsIn_stem h.parts, if_neg (by simp), cons_slashed]

theorem walk_stem {names : List Text} (h : Names names) : walk [] (stem names) = names.reverse := by
  by_cases hne : names = []
  · subst hne
    rfl
  · have hpieces : pieces '/' (stem names) = [] :: names := by
      rw [← cons_joined hne, Text.pieces_cons_separator,
        Text.pieces_joined hne fun c hc => (h c hc).no_slash]
    rw [walk, hpieces]
    show names.foldl (enter .posix true) [] = names.reverse
    rw [foldl_enter_names true h, List.append_nil]

theorem location_stem {names : List Text} (h : Names names) : location (stem names) = names := by
  rw [location, walk_stem h, List.reverse_reverse]

theorem location_slashed {names : List Text} (h : Names names) :
    location ('/' :: slashed names) = names := by
  rw [cons_slashed, location, walk_append]
  exact location_stem h

/-! ## The canonical form -/

/-- The simplified path, not cut. -/
def whole (os : Platform) (path : Text) : Text :=
  let frame := frameOf os path
  let (anchor, rest) := splitAnchor os path
  frame.render (stackOf os frame.rooted (!anchor.isEmpty) rest).reverse

/-- A path whose canonical form is not cut. -/
def Untruncated (os : Platform) (path : Text) : Prop := canonical os path = whole os path

instance (os : Platform) (path : Text) : Decidable (Untruncated os path) :=
  inferInstanceAs (Decidable (_ = _))

theorem exists_cons_of_isAbsolute {path : Text} (h : isAbsolute .posix path = true) :
    ∃ rest, path = '/' :: rest :=
  Text.exists_cons_of_startsWith h

/-- How an absolute path is written. -/
theorem frameOf_absolute {path : Text} (h : isAbsolute .posix path = true) :
    frameOf .posix path = ⟨[], true, true⟩ := by
  obtain ⟨rest, rfl⟩ := exists_cons_of_isAbsolute h
  rfl

theorem isAbsolute_append {a : Text} (h : isAbsolute .posix a = true) (b : Text) :
    isAbsolute .posix (a ++ b) = true := by
  obtain ⟨rest, rfl⟩ := exists_cons_of_isAbsolute h
  rfl

theorem isAbsolute_of_append {a b : Text} (h : isAbsolute .posix (a ++ b) = true) (hne : a ≠ []) :
    isAbsolute .posix a = true := by
  obtain ⟨c, rest, rfl⟩ := List.exists_cons_of_ne_nil hne
  exact h

theorem stackOf_absolute {path : Text} (h : isAbsolute .posix path = true) :
    stackOf .posix true false path = walk [] path := by
  obtain ⟨rest, rfl⟩ := exists_cons_of_isAbsolute h
  rw [stackOf, walk, Text.pieces_cons_separator]
  rfl

theorem render_absolute {names : List Text} (h : Names names) :
    (Frame.mk [] true true).render names = '/' :: slashed names :=
  withSlash_rooted h

theorem whole_absolute {path : Text} (h : isAbsolute .posix path = true) :
    whole .posix path = '/' :: slashed (location path) := by
  simp only [whole, frameOf_absolute h, splitAnchor, List.isEmpty_nil, Bool.not_true,
    stackOf_absolute h]
  exact render_absolute (names_location path)

theorem canonical_absolute {path : Text} (h : isAbsolute .posix path = true) (capacity : Int) :
    canonical .posix path capacity =
      (Frame.mk [] true true).fit capacity (location path).reverse := by
  simp only [canonical, frameOf_absolute h, splitAnchor, List.isEmpty_nil, Bool.not_true,
    stackOf_absolute h, location, List.reverse_reverse]

/-- The canonical form of an absolute path depends on where it leads, and on nothing else. -/
theorem canonical_congr {a b : Text} (ha : isAbsolute .posix a = true)
    (hb : isAbsolute .posix b = true) (h : location a = location b) :
    canonical .posix a = canonical .posix b := by
  rw [canonical_absolute ha, canonical_absolute hb, h]

theorem equal_of_location {a b : Text} (ha : isAbsolute .posix a = true)
    (hb : isAbsolute .posix b = true) (h : location a = location b) : equal .posix a b = true := by
  rw [equal, canonical_congr ha hb h]
  exact beq_self_eq_true _

theorem Untruncated.canonical_eq {path : Text} (h : Untruncated .posix path)
    (habsolute : isAbsolute .posix path = true) :
    canonical .posix path = '/' :: slashed (location path) :=
  h.trans (whole_absolute habsolute)

end PaneCompletion.Path
