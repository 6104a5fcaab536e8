import PaneCompletion.Proofs.Path.Location

/-!
# Canonical forms are final

The components of a path leave a stack in normal form (`Normal`): names, and below them the steps
up or the dot that a relative path begins with. Dropping the innermost components keeps that form,
and a stack in normal form that is written out and read again comes back as it was. So a canonical
form is changed by nothing but a smaller capacity, and cutting twice is cutting once to the smaller
of the two (`canonical_stable`). The one stack that does not come back is the empty one of a
relative path: it is written as a dot and read as one. Both are written alike (`standing`).

1. stacks in normal form;
2. stacks of a text;
3. cutting a stack;
4. writing a stack and reading it;
5. canonical forms.
-/

namespace PaneCompletion.Path

open Text (pieces)

/-! ## Stacks in normal form -/

/-- A stack as the components of a path leave it, innermost first: names on top of what the path
begins with, which for a relative one is steps up or the dot that anchors it. -/
inductive Normal : Bool → List Text → Prop
  | root : Normal true []
  | ups (n : Nat) : Normal false (List.replicate n ['.', '.'])
  | here : Normal false [['.']]
  | name {rooted : Bool} {component : Text} {below : List Text} (hname : IsName component)
      (hbelow : Normal rooted below) : Normal rooted (component :: below)

theorem normal_nil : Normal false [] := .ups 0

theorem Normal.tail {rooted : Bool} {top : Text} {below : List Text}
    (h : Normal rooted (top :: below)) : Normal rooted below := by
  generalize hstack : top :: below = stack at h
  cases h with
  | root => cases hstack
  | ups n =>
    cases n with
    | zero => cases hstack
    | succ n =>
      cases hstack
      exact .ups n
  | here =>
    cases hstack
    exact normal_nil
  | name hname hbelow =>
    cases hstack
    exact hbelow

theorem Normal.names {stack : List Text} (h : Normal true stack) : Names stack := by
  generalize hrooted : true = rooted at h
  induction h with
  | root => exact names_nil
  | ups n => cases hrooted
  | here => cases hrooted
  | name hname _ ih =>
    intro c hc
    rcases List.mem_cons.mp hc with rfl | hc
    · exact hname
    · exact ih hrooted c hc

theorem Names.normal {stack : List Text} (h : Names stack) : Normal true stack := by
  induction stack with
  | nil => exact .root
  | cons name below ih =>
    obtain ⟨hname, hbelow⟩ := h.of_cons
    exact (ih hbelow).name hname

theorem Normal.parts {rooted : Bool} {stack : List Text} (h : Normal rooted stack) :
    Parts stack := by
  induction h with
  | root => exact names_nil.parts
  | ups n =>
    intro c hc
    rw [List.eq_of_mem_replicate hc]
    decide
  | here =>
    intro c hc
    rw [List.mem_singleton.mp hc]
    decide
  | name hname _ ih =>
    intro c hc
    rcases List.mem_cons.mp hc with rfl | hc
    · exact ⟨hname.ne_nil, hname.no_slash⟩
    · exact ih c hc

/-- From the first component on, a relative path in normal form is its steps up or its dot, and then
names. -/
theorem Normal.exists_lead {stack : List Text} (h : Normal false stack) :
    ∃ lead names, stack.reverse = lead ++ names ∧ Names names ∧
      (lead = [['.']] ∨ ∃ n, lead = List.replicate n ['.', '.']) := by
  generalize hrooted : false = rooted at h
  induction h with
  | root => cases hrooted
  | ups n => exact ⟨_, [], by simp, names_nil, .inr ⟨n, rfl⟩⟩
  | here => exact ⟨_, [], by simp, names_nil, .inl rfl⟩
  | name hname _ ih =>
    obtain ⟨lead, names, hstack, hnames, hlead⟩ := ih hrooted
    refine ⟨lead, names ++ [_], by rw [List.reverse_cons, hstack, List.append_assoc], ?_, hlead⟩
    intro c hc
    rcases List.mem_append.mp hc with hc | hc
    · exact hnames c hc
    · rwa [List.mem_singleton.mp hc]

theorem leave_name (rooted : Bool) {name : Text} (h : IsName name) (below : List Text) :
    leave rooted (name :: below) = below := by
  rw [leave, if_neg h.ne_parent, if_neg h.ne_here]

theorem Normal.leave {rooted : Bool} {stack : List Text} (h : Normal rooted stack) :
    Normal rooted (leave rooted stack) := by
  cases h with
  | root => exact .root
  | ups n =>
    cases n with
    | zero => exact .ups 1
    | succ n => exact .ups (n + 2)
  | here => exact .ups 1
  | name hname hbelow => rwa [leave_name rooted hname]

theorem Normal.enter {rooted : Bool} {stack : List Text} (h : Normal rooted stack)
    {component : Text} (hslash : '/' ∉ component) :
    Normal rooted (enter .posix rooted stack component) := by
  rcases enter_forms rooted stack hslash with ⟨-, heq⟩ | ⟨-, heq⟩ | ⟨hname, heq⟩
  · rwa [heq]
  · rw [heq]
    exact h.leave
  · rw [heq]
    exact h.name hname

theorem Normal.foldl_enter {rooted : Bool} {stack : List Text} (h : Normal rooted stack)
    {components : List Text} (hslash : ∀ c ∈ components, '/' ∉ c) :
    Normal rooted (components.foldl (Path.enter .posix rooted) stack) := by
  induction components generalizing stack with
  | nil => exact h
  | cons c more ih =>
    exact ih (h.enter (hslash c List.mem_cons_self))
      (fun d hd => hslash d (List.mem_cons_of_mem _ hd))

/-! ## Stacks of a text -/

/-- The stack after components, of which the first may anchor a relative path. -/
def stackFrom (rooted : Bool) : List Text → List Text
  | [] => []
  | first :: more => more.foldl (enter .posix rooted) (opening .posix rooted false first)

theorem stackOf_eq (rooted : Bool) (text : Text) :
    stackOf .posix rooted false text = stackFrom rooted (pieces '/' text) := by
  rw [stackOf]
  cases pieces '/' text <;> rfl

theorem stackFrom_append {rooted : Bool} {a : List Text} (hne : a ≠ []) (b : List Text) :
    stackFrom rooted (a ++ b) = b.foldl (enter .posix rooted) (stackFrom rooted a) := by
  cases a with
  | nil => exact absurd rfl hne
  | cons first more => exact List.foldl_append

/-- Only a dot is treated in another way where it comes first. -/
theorem opening_cases (rooted : Bool) (component : Text) :
    component = ['.'] ∧ opening .posix rooted false component = [['.']] ∨
    opening .posix rooted false component = enter .posix rooted [] component := by
  rw [opening, isHere_posix]
  by_cases hhere : component = ['.']
  · exact .inl ⟨hhere, by simp [hhere]⟩
  · exact .inr (by simp [hhere])

theorem normal_stackOf (text : Text) : Normal false (stackOf .posix false false text) := by
  have hslash : ∀ c ∈ pieces '/' text, '/' ∉ c := fun _ hc => Text.not_mem_of_mem_pieces hc
  rw [stackOf_eq]
  cases hpieces : pieces '/' text with
  | nil => exact normal_nil
  | cons first more =>
    rw [hpieces] at hslash
    have hopening : Normal false (opening .posix false false first) := by
      rcases opening_cases false first with ⟨-, heq⟩ | heq
      · rw [heq]
        exact .here
      · rw [heq]
        exact normal_nil.enter (hslash first List.mem_cons_self)
    exact hopening.foldl_enter fun c hc => hslash c (List.mem_cons_of_mem _ hc)

/-! ## Cutting a stack -/

/-- What is left of a stack that is written into a capacity. -/
def Frame.kept (frame : Frame) (capacity : Int) : List Text → List Text
  | [] => []
  | top :: below =>
    if ((frame.render (top :: below).reverse).length : Int) > capacity - 1 then
      frame.kept capacity below
    else top :: below

theorem Frame.fit_eq_render (frame : Frame) (capacity : Int) (stack : List Text) :
    frame.fit capacity stack = frame.render (frame.kept capacity stack).reverse := by
  induction stack with
  | nil => rfl
  | cons top below ih =>
    rw [fit, kept]
    split
    · exact ih
    · rfl

/-- Cutting a stack that has been cut is cutting it to the smaller capacity. -/
theorem Frame.kept_kept (frame : Frame) (c₁ c₂ : Int) (stack : List Text) :
    frame.kept c₂ (frame.kept c₁ stack) = frame.kept (min c₁ c₂) stack := by
  induction stack with
  | nil => rfl
  | cons top below ih =>
    by_cases hfirst : ((frame.render (top :: below).reverse).length : Int) > c₁ - 1
    · have hboth : ((frame.render (top :: below).reverse).length : Int) > min c₁ c₂ - 1 := by
        omega
      rw [kept, if_pos hfirst, ih, kept, if_pos hboth]
    · rw [kept, if_neg hfirst, kept, kept]
      by_cases hsecond : ((frame.render (top :: below).reverse).length : Int) > c₂ - 1
      · -- only the second capacity cuts here, so it is the smaller one
        have hmin : min c₁ c₂ = c₂ := by omega
        rw [hmin]
      · rw [if_neg hsecond, if_neg (by omega)]

theorem Frame.fit_kept (frame : Frame) (c₁ c₂ : Int) (stack : List Text) :
    frame.fit c₂ (frame.kept c₁ stack) = frame.fit (min c₁ c₂) stack := by
  rw [fit_eq_render, fit_eq_render, kept_kept]

theorem Normal.kept {rooted : Bool} {stack : List Text} (h : Normal rooted stack) (frame : Frame)
    (capacity : Int) : Normal rooted (frame.kept capacity stack) := by
  induction stack with
  | nil => exact h
  | cons top below ih =>
    rw [Frame.kept]
    split
    · exact ih h.tail
    · exact h

/-! ## Writing a stack and reading it -/

/-- The stack that the text of a relative path stands for: where nothing is left, the dot that is
written in its place. -/
def standing (stack : List Text) : List Text := if stack = [] then [['.']] else stack

theorem standing_ne_nil (stack : List Text) : standing stack ≠ [] := by
  unfold standing
  split
  · simp
  · assumption

theorem standing_reverse (stack : List Text) :
    standing stack.reverse = (standing stack).reverse := by
  by_cases hnil : stack = []
  · subst hnil
    rfl
  · rw [standing, standing, if_neg hnil, if_neg (by simpa using hnil)]

theorem Normal.standing {stack : List Text} (h : Normal false stack) :
    Normal false (standing stack) := by
  unfold Path.standing
  split
  · exact .here
  · exact h

theorem render_relative {components : List Text} (h : Parts components) :
    (Frame.mk [] false true).render components = slashed (standing components) := by
  by_cases hnil : components = []
  · subst hnil
    rfl
  · rw [standing, if_neg hnil, Frame.render, if_neg (by simp), if_pos (by simpa using hnil)]
    exact withSlash_joined h hnil

theorem render_standing {stack : List Text} (h : Normal false stack) :
    (Frame.mk [] false true).render stack.reverse = slashed (standing stack).reverse := by
  rw [render_relative h.parts.reverse, standing_reverse]

theorem fit_standing (capacity : Int) (stack : List Text) :
    (Frame.mk [] false true).fit capacity (standing stack) =
      (Frame.mk [] false true).fit capacity stack := by
  by_cases hnil : stack = []
  · subst hnil
    simp only [standing, if_pos, Frame.fit]
    split <;> rfl
  · rw [standing, if_neg hnil]

theorem foldl_enter_ups (m n : Nat) :
    (List.replicate m ['.', '.']).foldl (enter .posix false) (List.replicate (n + 1) ['.', '.']) =
      List.replicate (m + n + 1) ['.', '.'] := by
  induction m generalizing n with
  | zero =>
    rw [Nat.zero_add]
    rfl
  | succ m ih =>
    rw [show m + 1 + n + 1 = m + (n + 1) + 1 by omega, ← ih (n + 1)]
    rfl

/-- A stack in normal form comes back when its components are taken from the first one on. -/
theorem Normal.stackFrom_reverse {stack : List Text} (h : Normal false stack) :
    stackFrom false stack.reverse = stack := by
  generalize hrooted : false = rooted at h
  induction h with
  | root => cases hrooted
  | ups n =>
    cases n with
    | zero => rfl
    | succ n =>
      rw [List.reverse_replicate]
      exact foldl_enter_ups n 0
  | here => rfl
  | @name _ c below hname _ ih =>
    subst hrooted
    rw [List.reverse_cons]
    by_cases hnil : below = []
    · subst hnil
      rcases opening_cases false c with ⟨hhere, -⟩ | heq
      · exact absurd hhere hname.ne_here
      · exact heq.trans (enter_name false hname)
    · rw [stackFrom_append (by simpa using hnil), ih rfl]
      exact enter_name false hname

theorem stackOf_slashed {stack : List Text} (h : Normal false stack) (hne : stack ≠ []) :
    stackOf .posix false false (slashed stack.reverse) = stack := by
  rw [stackOf_eq, pieces_slashed h.parts.reverse.no_slash, stackFrom_append (by simpa using hne),
    h.stackFrom_reverse]
  rfl

theorem isAbsolute_slashed {components : List Text} (h : Parts components) :
    isAbsolute .posix (slashed components) = false := by
  cases components with
  | nil => rfl
  | cons first more =>
    obtain ⟨⟨hne, hslash⟩, -⟩ := h.of_cons
    obtain ⟨c, rest, rfl⟩ := List.exists_cons_of_ne_nil hne
    obtain ⟨hc, -⟩ : '/' ≠ c ∧ '/' ∉ rest := by simpa using hslash
    simp [isAbsolute, Text.startsWith, List.isPrefixOf, hc]

/-! ## Canonical forms -/

theorem frameOf_relative {path : Text} (h : isAbsolute .posix path = false) (hne : path ≠ []) :
    frameOf .posix path = ⟨[], false, true⟩ := by
  have hstart : Text.startsWith path ['/'] = false := by simpa [isAbsolute] using h
  simp [frameOf, splitAnchor, hstart, hne]
  rfl

theorem canonical_relative {path : Text} (h : isAbsolute .posix path = false) (hne : path ≠ [])
    (capacity : Int) :
    canonical .posix path capacity =
      (Frame.mk [] false true).fit capacity (stackOf .posix false false path) := by
  simp only [canonical, frameOf_relative h hne, splitAnchor, List.isEmpty_nil, Bool.not_true]

theorem whole_relative {path : Text} (h : isAbsolute .posix path = false) (hne : path ≠ []) :
    whole .posix path = slashed (standing (stackOf .posix false false path)).reverse := by
  simp only [whole, frameOf_relative h hne, splitAnchor, List.isEmpty_nil, Bool.not_true]
  exact render_standing (normal_stackOf path)

@[simp] theorem canonical_nil (capacity : Int) : canonical .posix [] capacity = ['/'] := rfl

/-- The canonical form of an absolute path is written from names. -/
theorem canonical_eq_of_absolute {path : Text} (h : isAbsolute .posix path = true)
    (capacity : Int) :
    let kept := (Frame.mk [] true true).kept capacity (location path).reverse
    Names kept ∧ canonical .posix path capacity = '/' :: slashed kept.reverse := by
  intro kept
  have hkept : Names kept := ((names_location path).reverse.normal.kept _ _).names
  refine ⟨hkept, ?_⟩
  rw [canonical_absolute h, Frame.fit_eq_render]
  exact render_absolute hkept.reverse

/-- The canonical form of a relative path is written from a stack in normal form. -/
theorem canonical_eq_of_relative {path : Text} (h : isAbsolute .posix path = false)
    (hne : path ≠ []) (capacity : Int) :
    let kept := (Frame.mk [] false true).kept capacity (stackOf .posix false false path)
    Normal false kept ∧ canonical .posix path capacity = slashed (standing kept).reverse := by
  intro kept
  have hkept : Normal false kept := (normal_stackOf path).kept _ _
  refine ⟨hkept, ?_⟩
  rw [canonical_relative h hne, Frame.fit_eq_render]
  exact render_standing hkept

theorem canonical_cons_slashed {names : List Text} (h : Names names) (capacity : Int) :
    canonical .posix ('/' :: slashed names) capacity =
      (Frame.mk [] true true).fit capacity names.reverse := by
  rw [canonical_absolute rfl, location_slashed h]

theorem canonical_slashed {stack : List Text} (h : Normal false stack) (hne : stack ≠ [])
    (capacity : Int) :
    canonical .posix (slashed stack.reverse) capacity =
      (Frame.mk [] false true).fit capacity stack := by
  have hparts : Parts stack.reverse := h.parts.reverse
  have htext : slashed stack.reverse ≠ [] := by
    intro hnil
    have hpieces := pieces_slashed hparts.no_slash
    rw [hnil] at hpieces
    simp [pieces, hne] at hpieces
  rw [canonical_relative (isAbsolute_slashed hparts) htext, stackOf_slashed h hne]

/-- A canonical form is cut by a smaller capacity, and not changed in any other way. -/
theorem canonical_canonical (path : Text) (c₁ c₂ : Int) :
    canonical .posix (canonical .posix path c₁) c₂ = canonical .posix path (min c₁ c₂) := by
  cases habsolute : isAbsolute .posix path with
  | true =>
    obtain ⟨hnames, hfirst⟩ := canonical_eq_of_absolute habsolute c₁
    rw [hfirst, canonical_cons_slashed hnames.reverse, List.reverse_reverse, Frame.fit_kept,
      canonical_absolute habsolute]
  | false =>
    by_cases hne : path = []
    · subst hne
      rfl
    · obtain ⟨hnormal, hfirst⟩ := canonical_eq_of_relative habsolute hne c₁
      rw [hfirst, canonical_slashed hnormal.standing (standing_ne_nil _), fit_standing,
        Frame.fit_kept, canonical_relative habsolute hne]

/-! ## The form of a canonical path -/

/-- A text ends in one slash and not in two. -/
def EndsOnce (text : Text) : Prop := ∃ front, text = front ++ ['/'] ∧ Text.endsIn '/' front = false

theorem endsOnce_canonical (path : Text) (capacity : Int) :
    EndsOnce (canonical .posix path capacity) := by
  cases habsolute : isAbsolute .posix path with
  | true =>
    obtain ⟨hnames, hwritten⟩ := canonical_eq_of_absolute habsolute capacity
    rw [hwritten, cons_slashed]
    exact ⟨_, rfl, endsIn_stem hnames.reverse.parts⟩
  | false =>
    by_cases hne : path = []
    · subst hne
      exact ⟨[], rfl, rfl⟩
    · obtain ⟨hnormal, hwritten⟩ := canonical_eq_of_relative habsolute hne capacity
      rw [hwritten, ← joined_append_slash (by simpa using standing_ne_nil _)]
      exact ⟨_, rfl, endsIn_joined hnormal.standing.parts.reverse⟩

/-- The components of a path that have something in them. -/
def components (path : Text) : List Text := (pieces '/' path).filter (· ≠ [])

/-- A path of which there is nothing to simplify: one slash after each component, names below the
root, and in a relative path names below its steps up or the one dot that anchors it. -/
structure IsCanonical (path : Text) : Prop where
  endsInSlash : endsInSlash path = true
  no_slashes : ¬['/', '/'] <:+: path
  absolute : isAbsolute .posix path = true → Names (components path)
  relative : isAbsolute .posix path = false → ∃ lead names, components path = lead ++ names ∧
    Names names ∧ (lead = [['.']] ∨ ∃ n, lead = List.replicate n ['.', '.'])

theorem components_slashed_append {parts : List Text} (h : Parts parts) (text : Text) :
    components (slashed parts ++ text) = parts ++ components text := by
  induction parts with
  | nil => rfl
  | cons c more ih =>
    obtain ⟨⟨hne, hslash⟩, hmore⟩ := h.of_cons
    have hrest := ih hmore
    rw [components] at hrest ⊢
    rw [slashed_cons, List.append_assoc, List.cons_append, Text.pieces_append,
      Text.pieces_eq_singleton hslash, List.filter_append, hrest]
    simp [hne]

theorem components_slashed {parts : List Text} (h : Parts parts) :
    components (slashed parts) = parts := by
  have happend := components_slashed_append h []
  rw [List.append_nil] at happend
  exact happend.trans (List.append_nil parts)

theorem components_cons_slashed {parts : List Text} (h : Parts parts) :
    components ('/' :: slashed parts) = parts := by
  have hslashed := components_slashed h
  rw [components] at hslashed ⊢
  rw [Text.pieces_cons_separator]
  simpa using hslashed

theorem endsInSlash_slashed {parts : List Text} (hne : parts ≠ []) :
    endsInSlash (slashed parts) = true := by
  rw [← joined_append_slash hne]
  simp [endsInSlash, Text.endsIn]

/-- Two slashes side by side have an empty piece between them, which is neither the first nor the
last. -/
theorem no_slashes_slashed {first : Text} {more : List Text} (hfirst : '/' ∉ first)
    (hmore : Parts more) : ¬['/', '/'] <:+: slashed (first :: more) := by
  rintro ⟨front, rest, htext⟩
  have hslash : ∀ c ∈ first :: more, '/' ∉ c := by
    intro c hc
    rcases List.mem_cons.mp hc with rfl | hc
    · exact hfirst
    · exact hmore.no_slash c hc
  have hpieces := pieces_slashed hslash
  rw [← htext, List.append_assoc, List.cons_append, Text.pieces_append, List.cons_append,
    List.nil_append, Text.pieces_cons_separator] at hpieces
  obtain ⟨head, tail, hfront⟩ := List.exists_cons_of_ne_nil (Text.pieces_ne_nil '/' front)
  rw [hfront, List.cons_append, List.cons_append] at hpieces
  have hmiddle : tail ++ [] :: (pieces '/' rest).dropLast = more := by
    have hlast := congrArg List.dropLast (List.cons.inj hpieces).2
    rwa [List.dropLast_concat, List.dropLast_append_of_ne_nil (by simp),
      List.dropLast_cons_of_ne_nil (Text.pieces_ne_nil '/' rest)] at hlast
  exact (hmore [] (by simp [← hmiddle])).1 rfl

theorem isCanonical_cons_slashed {names : List Text} (h : Names names) :
    IsCanonical ('/' :: slashed names) where
  endsInSlash := endsInSlash_slashed (List.cons_ne_nil [] names)
  no_slashes := no_slashes_slashed List.not_mem_nil h.parts
  absolute := by
    intro _
    rwa [components_cons_slashed h.parts]
  relative := by
    intro hrelative
    simp [isAbsolute, Text.startsWith] at hrelative

theorem isCanonical_slashed {stack : List Text} (h : Normal false stack) (hne : stack ≠ []) :
    IsCanonical (slashed stack.reverse) := by
  have hparts : Parts stack.reverse := h.parts.reverse
  have hreverse : stack.reverse ≠ [] := by simpa using hne
  refine ⟨endsInSlash_slashed hreverse, ?_, ?_, ?_⟩
  · obtain ⟨first, more, hstack⟩ := List.exists_cons_of_ne_nil hreverse
    rw [hstack] at hparts ⊢
    obtain ⟨hfirst, hmore⟩ := hparts.of_cons
    exact no_slashes_slashed hfirst.2 hmore
  · intro habsolute
    rw [isAbsolute_slashed hparts] at habsolute
    cases habsolute
  · intro _
    rw [components_slashed hparts]
    exact h.exists_lead

/-- Simplifying a canonical path again cuts it to the smaller capacity and does nothing else; a
canonical path has nothing left to simplify; and it is absolute exactly if it comes from an absolute
path or from no text at all. -/
theorem canonical_stable (path : Text) (c₁ c₂ : Int) :
    canonical .posix (canonical .posix path c₁) c₂ = canonical .posix path (min c₁ c₂) ∧
      IsCanonical (canonical .posix path c₁) ∧
      (isAbsolute .posix (canonical .posix path c₁) = true ↔
        isAbsolute .posix path = true ∨ path = []) := by
  refine ⟨canonical_canonical path c₁ c₂, ?_⟩
  cases habsolute : isAbsolute .posix path with
  | true =>
    obtain ⟨hnames, hwritten⟩ := canonical_eq_of_absolute habsolute c₁
    rw [hwritten]
    exact ⟨isCanonical_cons_slashed hnames.reverse, by simp [isAbsolute, Text.startsWith]⟩
  | false =>
    by_cases hne : path = []
    · subst hne
      exact ⟨isCanonical_cons_slashed names_nil, by simp [isAbsolute, Text.startsWith]⟩
    · obtain ⟨hnormal, hwritten⟩ := canonical_eq_of_relative habsolute hne c₁
      rw [hwritten, isAbsolute_slashed hnormal.standing.parts.reverse]
      exact ⟨isCanonical_slashed hnormal.standing (standing_ne_nil _), by simp [hne]⟩

end PaneCompletion.Path
