import PaneCompletion.Proofs.Path.Normal

/-!
# Paths behind anchors

On Windows a run of more than two dots stands for a dot (`shortDots`); but for that, components do
there what they do elsewhere (`enter_windows`). A path may have an anchor in front of its
components, a drive or a host, and is then written out behind the same anchor: from a root, where a
slash follows the anchor or the anchor is a host (`canonical_rooted`), or else from the directory
that a drive is in (`canonical_drive`). What is written behind an anchor and read again comes back
as it was (`behind_slashed`).

1. runs of dots;
2. components behind an anchor;
3. anchors;
4. canonical forms behind anchors.
-/

namespace PaneCompletion.Path

open Text (pieces)

/-! ## Runs of dots -/

/-- A component, or the dot that it stands for on Windows. -/
def shortDots (component : Text) : Text := if isHere .windows component then ['.'] else component

theorem shortDots_of_moves {component : Text} (h : isHere .windows component = false) :
    shortDots component = component := by
  rw [shortDots, h]
  rfl

theorem shortDots_of_here {component : Text} (h : isHere .windows component = true) :
    shortDots component = ['.'] := by
  rw [shortDots, h]
  rfl

theorem shortDots_shortDots (component : Text) :
    shortDots (shortDots component) = shortDots component := by
  cases h : isHere .windows component with
  | true =>
    rw [shortDots_of_here h]
    rfl
  | false => rw [shortDots_of_moves h, shortDots_of_moves h]

theorem no_slash_shortDots {component : Text} (h : '/' ∉ component) :
    '/' ∉ shortDots component := by
  rw [shortDots]
  split
  · decide
  · exact h

/-- A component that stands for itself and is no dot goes up or down. -/
theorem moves_of_shortDots {component : Text} (h : shortDots component = component)
    (hdot : component ≠ ['.']) : isHere .windows component = false := by
  rw [Bool.eq_false_iff]
  intro hhere
  exact hdot (h.symm.trans (shortDots_of_here hhere))

theorem enter_windows (rooted : Bool) (stack : List Text) (component : Text) :
    enter .windows rooted stack component = enter .posix rooted stack (shortDots component) := by
  cases h : isHere .windows component with
  | true =>
    have hne : component ≠ [] := by
      rintro rfl
      cases h
    simp [enter, shortDots_of_here h, h, hne]
  | false =>
    have hdot : component ≠ ['.'] := by
      rintro rfl
      cases h
    simp [enter, shortDots_of_moves h, h, hdot]

theorem opening_windows (rooted anchored : Bool) (component : Text) :
    opening .windows rooted anchored component =
      opening .posix rooted anchored (shortDots component) := by
  have hhere : isHere .windows component = isHere .posix (shortDots component) := by
    cases h : isHere .windows component with
    | true =>
      rw [shortDots_of_here h]
      rfl
    | false =>
      rw [shortDots_of_moves h, isHere_posix, eq_comm, decide_eq_false_iff_not]
      rintro rfl
      cases h
  rw [opening, opening, hhere, enter_windows]

theorem foldl_enter_windows (rooted : Bool) (components stack : List Text) :
    components.foldl (enter .windows rooted) stack =
      (components.map shortDots).foldl (enter .posix rooted) stack := by
  rw [List.foldl_map]
  congr
  funext stack component
  exact enter_windows rooted stack component

/-! ## Components behind an anchor -/

theorem mem_leave {rooted : Bool} {stack : List Text} {c : Text} (h : c ∈ leave rooted stack) :
    c ∈ stack ∨ c = ['.', '.'] := by
  cases stack with
  | nil =>
    rw [leave] at h
    split at h
    · cases h
    · exact .inr (List.mem_singleton.mp h)
  | cons top below =>
    rw [leave] at h
    split_ifs at h
    · exact .inl h
    · exact (List.mem_cons.mp h).symm
    · exact (List.mem_cons.mp h).symm.imp_left (List.mem_cons_of_mem top)
    · exact .inl (List.mem_cons_of_mem top h)

/-- On the stack of a path are its components, but for dots, and steps up. -/
theorem mem_foldl_enter {rooted : Bool} {components stack : List Text} {c : Text}
    (h : c ∈ components.foldl (enter .posix rooted) stack) :
    c ∈ stack ∨ c = ['.', '.'] ∨ c ∈ components ∧ c ≠ ['.'] := by
  induction components generalizing stack with
  | nil => exact .inl h
  | cons d more ih =>
    rcases ih h with hstack | hup | ⟨hmore, hdot⟩
    · rw [enter, isHere_posix] at hstack
      split_ifs at hstack with hnil hhere hparent
      · exact .inl hstack
      · exact .inl hstack
      · exact (mem_leave hstack).imp_right .inl
      · rcases List.mem_cons.mp hstack with rfl | hstack
        · exact .inr (.inr ⟨List.mem_cons_self, by simpa using hhere⟩)
        · exact .inl hstack
    · exact .inr (.inl hup)
    · exact .inr (.inr ⟨List.mem_cons_of_mem d hmore, hdot⟩)

/-- The stack after the components behind an anchor, innermost first. -/
def behind (rooted : Bool) (rest : Text) : List Text :=
  ((pieces '/' rest).map shortDots).foldl (enter .posix rooted) []

theorem stackOf_anchored (rooted : Bool) (rest : Text) :
    stackOf .windows rooted true rest = behind rooted rest := by
  rw [stackOf, behind, ← foldl_enter_windows]
  cases pieces '/' rest with
  | nil => rfl
  | cons first more =>
    rw [List.foldl_cons]
    simp [opening]

theorem behind_append (rooted : Bool) (rest path : Text) :
    behind rooted (rest ++ '/' :: path) =
      ((pieces '/' path).map shortDots).foldl (enter .posix rooted) (behind rooted rest) := by
  rw [behind, Text.pieces_append, List.map_append, List.foldl_append]
  rfl

theorem behind_cons_slash (rooted : Bool) (rest : Text) :
    behind rooted ('/' :: rest) = behind rooted rest := by
  rw [behind, Text.pieces_cons_separator]
  rfl

theorem normal_start (rooted : Bool) : Normal rooted [] := by
  cases rooted with
  | true => exact .root
  | false => exact normal_nil

theorem normal_behind (rooted : Bool) (rest : Text) : Normal rooted (behind rooted rest) := by
  refine (normal_start rooted).foldl_enter fun c hc => ?_
  obtain ⟨component, hcomponent, rfl⟩ := List.mem_map.mp hc
  exact no_slash_shortDots (Text.not_mem_of_mem_pieces hcomponent)

theorem moves_of_mem_behind {rooted : Bool} {rest c : Text} (h : c ∈ behind rooted rest) :
    isHere .windows c = false := by
  rcases mem_foldl_enter h with hnone | rfl | ⟨hc, hdot⟩
  · cases hnone
  · rfl
  · obtain ⟨component, -, rfl⟩ := List.mem_map.mp hc
    exact moves_of_shortDots (shortDots_shortDots component) hdot

/-- Without a dot in it, a stack in normal form comes back behind an anchor too. -/
theorem Normal.foldl_enter_reverse {rooted : Bool} {stack : List Text} (h : Normal rooted stack)
    (hdot : ['.'] ∉ stack) : stack.reverse.foldl (Path.enter .posix rooted) [] = stack := by
  cases rooted with
  | true =>
    rw [foldl_enter_names true h.names.reverse, List.reverse_reverse, List.append_nil]
  | false =>
    have hback := h.stackFrom_reverse
    cases hreverse : stack.reverse with
    | nil =>
      rw [List.reverse_eq_nil_iff.mp hreverse]
      rfl
    | cons first more =>
      have hfirst : first ≠ ['.'] := by
        rintro rfl
        exact hdot (List.mem_reverse.mp (by simp [hreverse]))
      rw [hreverse, stackFrom] at hback
      rcases opening_cases false first with ⟨hhere, -⟩ | hopening
      · exact absurd hhere hfirst
      · rwa [hopening] at hback

/-- What is written behind an anchor comes back when it is read. -/
theorem behind_slashed {rooted : Bool} {stack : List Text} (h : Normal rooted stack)
    (hmoves : ∀ c ∈ stack, isHere .windows c = false) :
    behind rooted (slashed stack.reverse) = stack := by
  have hshort : stack.reverse.map shortDots = stack.reverse := by
    refine (List.map_congr_left fun c hc => ?_).trans (List.map_id _)
    exact shortDots_of_moves (hmoves c (List.mem_reverse.mp hc))
  have hdot : ['.'] ∉ stack := fun hmem => nomatch hmoves _ hmem
  rw [behind, pieces_slashed h.parts.reverse.no_slash, List.map_append, hshort, List.foldl_append,
    h.foldl_enter_reverse hdot]
  rfl

/-! ## Anchors -/

/-- What a path can begin with on Windows that `..` cannot climb over: a drive or a host. -/
inductive IsAnchor : Text → Prop
  | drive {letter : Char} (hletter : Text.isLetter letter = true) : IsAnchor [letter, ':']
  | host {name : Text} (hne : name ≠ []) (hslash : '/' ∉ name) : IsAnchor ('/' :: '/' :: name)

theorem exists_of_hasDrive {text : Text} (h : hasDrive text = true) :
    ∃ letter rest, Text.isLetter letter = true ∧ text = letter :: ':' :: rest := by
  unfold hasDrive at h
  split at h
  · exact ⟨_, _, h, rfl⟩
  · cases h

theorem ne_slash_of_isLetter {letter : Char} (h : Text.isLetter letter = true) : '/' ≠ letter := by
  rintro rfl
  cases h

theorem no_slash_drive {letter : Char} (h : Text.isLetter letter = true) :
    '/' ∉ [letter, ':'] := by
  simpa using ne_slash_of_isLetter h

theorem hasTwoSlashes_drive (letter : Char) (rest : Text) :
    hasTwoSlashes (letter :: ':' :: rest) = false := by
  unfold hasTwoSlashes
  split
  · next heq => simp at heq
  · rfl

theorem splitAnchor_drive {letter : Char} (hletter : Text.isLetter letter = true) (rest : Text) :
    splitAnchor .windows (letter :: ':' :: rest) = ([letter, ':'], rest) := by
  have hdrive : hasDrive (letter :: ':' :: rest) = true := hletter
  simp [splitAnchor, hasTwoSlashes_drive, hdrive]

theorem hasTwoSlashes_host {name : Text} (hne : name ≠ []) (hslash : '/' ∉ name) (rest : Text) :
    hasTwoSlashes ('/' :: '/' :: (name ++ rest)) = true := by
  obtain ⟨c, more, rfl⟩ := List.exists_cons_of_ne_nil hne
  obtain ⟨hc, -⟩ : '/' ≠ c ∧ '/' ∉ more := by simpa using hslash
  simp [hasTwoSlashes, Text.startsWith, List.isPrefixOf, hc]

theorem splitAnchor_host {name : Text} (hne : name ≠ []) (hslash : '/' ∉ name) {rest : Text}
    (hrest : rest = [] ∨ ['/'] <+: rest) :
    splitAnchor .windows ('/' :: '/' :: (name ++ rest)) = ('/' :: '/' :: name, rest) := by
  have hname : ∀ c ∈ name, (!decide (c = '/')) = true := by
    intro c hc
    rw [Bool.not_eq_true', decide_eq_false_iff_not]
    rintro rfl
    exact hslash hc
  have htake : (name ++ rest).takeWhile (fun c => !decide (c = '/')) = name := by
    rw [List.takeWhile_append_of_pos hname]
    rcases hrest with rfl | ⟨more, rfl⟩
    · simp
    · simp
  simp [splitAnchor, hasTwoSlashes_host hne hslash, htake, Nat.add_comm 2]

/-- A path has no anchor, or nothing but two slashes, or it begins with a drive or a host. -/
theorem anchor_cases (path : Text) :
    splitAnchor .windows path = ([], path) ∨ path = ['/', '/'] ∨
      (∃ letter rest, Text.isLetter letter = true ∧ path = letter :: ':' :: rest) ∨
      ∃ name rest, name ≠ [] ∧ '/' ∉ name ∧ (rest = [] ∨ ['/'] <+: rest) ∧
        path = '/' :: '/' :: (name ++ rest) := by
  unfold splitAnchor
  simp only
  split
  · next htwo =>
    unfold hasTwoSlashes at htwo
    split at htwo
    · next text =>
      by_cases hslash : '/' ∈ text
      · obtain ⟨name, rest, rfl, hname⟩ := List.eq_append_cons_of_mem hslash
        refine .inr (.inr (.inr ⟨name, '/' :: rest, ?_, hname, .inr (by simp), rfl⟩))
        rintro rfl
        simp [Text.startsWith] at htwo
      · by_cases hnil : text = []
        · exact .inr (.inl (by rw [hnil]))
        · exact .inr (.inr (.inr ⟨text, [], hnil, hslash, .inl rfl, by simp⟩))
    · cases htwo
  · split
    · next hdrive => exact .inr (.inr (.inl (exists_of_hasDrive hdrive)))
    · exact .inl rfl

/-! ## Canonical forms behind anchors -/

theorem endsIn_append {c : Char} (a : Text) {b : Text} (hne : b ≠ []) :
    Text.endsIn c (a ++ b) = Text.endsIn c b := by
  obtain ⟨d, more, rfl⟩ := List.exists_cons_of_ne_nil hne
  simp [Text.endsIn, List.getLast?_append]

theorem IsAnchor.endsIn_eq {anchor : Text} (h : IsAnchor anchor) :
    Text.endsIn '/' anchor = false := by
  cases h with
  | drive hletter => rfl
  | @host name hne hslash =>
    rw [show '/' :: '/' :: name = ['/', '/'] ++ name from rfl, endsIn_append _ hne, Text.endsIn,
      beq_eq_false_iff_ne]
    exact fun hlast => hslash (List.mem_of_getLast? hlast)

theorem render_rooted (anchor : Text) (typed : Bool) {parts : List Text} (h : Parts parts) :
    (Frame.mk anchor true typed).render parts = anchor ++ '/' :: slashed parts := by
  rw [Frame.render, if_pos rfl]
  by_cases hne : parts = []
  · subst hne
    rw [withSlash, if_pos (by simp [Text.endsIn, Text.joined])]
    rfl
  · have hsome : stem parts ≠ [] := by
      rw [← cons_joined hne]
      exact List.cons_ne_nil _ _
    rw [cons_joined hne, withSlash, endsIn_append _ hsome, endsIn_stem h, if_neg (by simp),
      List.append_assoc, ← cons_slashed]

theorem render_drive (letter : Char) (typed : Bool) {parts : List Text} (h : Parts parts)
    (hne : parts ≠ []) :
    (Frame.mk [letter, ':'] false typed).render parts = letter :: ':' :: slashed parts := by
  have hsome : Text.joined ['/'] parts ≠ [] := Text.joined_ne_nil hne fun c hc => (h c hc).1
  rw [Frame.render, if_neg (by simp), if_pos (by simpa using hne), withSlash,
    endsIn_append _ hsome, endsIn_joined h, if_neg (by simp), List.append_assoc,
    joined_append_slash hne]
  rfl

theorem IsAnchor.ne_nil {anchor : Text} (h : IsAnchor anchor) : anchor ≠ [] := by
  cases h with
  | drive hletter => exact List.cons_ne_nil _ _
  | host hne hslash => exact List.cons_ne_nil _ _

theorem splitAnchor_rooted {anchor : Text} (h : IsAnchor anchor) (rest : Text) :
    splitAnchor .windows (anchor ++ '/' :: rest) = (anchor, '/' :: rest) := by
  cases h with
  | drive hletter => exact splitAnchor_drive hletter _
  | host hne hslash => exact splitAnchor_host hne hslash (.inr (by simp))

theorem frameOf_rooted {anchor : Text} (h : IsAnchor anchor) (rest : Text) :
    frameOf .windows (anchor ++ '/' :: rest) = ⟨anchor, true, true⟩ := by
  simp [frameOf, splitAnchor_rooted h, Text.startsWith]

theorem stackOf_rooted {anchor : Text} (h : IsAnchor anchor) (rest : Text) :
    stackOf .windows true (!anchor.isEmpty) ('/' :: rest) = behind true rest := by
  rw [show (!anchor.isEmpty) = true by simpa using h.ne_nil, stackOf_anchored, behind_cons_slash]

theorem canonical_rooted {anchor : Text} (h : IsAnchor anchor) (rest : Text) (capacity : Int) :
    canonical .windows (anchor ++ '/' :: rest) capacity =
      (Frame.mk anchor true true).fit capacity (behind true rest) := by
  simp only [canonical, frameOf_rooted h, splitAnchor_rooted h, stackOf_rooted h]

theorem whole_rooted {anchor : Text} (h : IsAnchor anchor) (rest : Text) :
    whole .windows (anchor ++ '/' :: rest) =
      anchor ++ '/' :: slashed (behind true rest).reverse := by
  simp only [whole, frameOf_rooted h, splitAnchor_rooted h, stackOf_rooted h]
  exact render_rooted anchor true (normal_behind true rest).parts.reverse

/-- A host with nothing behind it is written with a slash. -/
theorem canonical_share {name : Text} (hne : name ≠ []) (hslash : '/' ∉ name) (capacity : Int) :
    canonical .windows ('/' :: '/' :: name) capacity = '/' :: '/' :: name ++ ['/'] := by
  have hsplit := splitAnchor_host hne hslash (.inl rfl)
  rw [List.append_nil] at hsplit
  have hframe : frameOf .windows ('/' :: '/' :: name) = ⟨'/' :: '/' :: name, true, false⟩ := by
    simp [frameOf, hsplit, Text.startsWith]
  have hstack : behind true [] = [] := rfl
  simp only [canonical, hframe, hsplit, List.isEmpty_cons, Bool.not_false, stackOf_anchored, hstack]
  exact render_rooted _ _ names_nil.parts

theorem frameOf_drive {letter : Char} (hletter : Text.isLetter letter = true) {rest : Text}
    (hrest : ¬['/'] <+: rest) :
    frameOf .windows (letter :: ':' :: rest) = ⟨[letter, ':'], false, !rest.isEmpty⟩ := by
  have hstart : Text.startsWith rest ['/'] = false := by
    rw [Bool.eq_false_iff]
    exact fun h => hrest (List.isPrefixOf_iff_prefix.mp h)
  simp [frameOf, splitAnchor_drive hletter, hstart]
  simp [Text.startsWith, List.isPrefixOf]

theorem canonical_drive {letter : Char} (hletter : Text.isLetter letter = true) {rest : Text}
    (hrest : ¬['/'] <+: rest) (capacity : Int) :
    canonical .windows (letter :: ':' :: rest) capacity =
      (Frame.mk [letter, ':'] false (!rest.isEmpty)).fit capacity (behind false rest) := by
  simp only [canonical, frameOf_drive hletter hrest, splitAnchor_drive hletter, List.isEmpty_cons,
    Bool.not_false, stackOf_anchored]

theorem whole_drive {letter : Char} (hletter : Text.isLetter letter = true) {rest : Text}
    (hrest : ¬['/'] <+: rest) :
    whole .windows (letter :: ':' :: rest) =
      (Frame.mk [letter, ':'] false (!rest.isEmpty)).render (behind false rest).reverse := by
  simp only [whole, frameOf_drive hletter hrest, splitAnchor_drive hletter, List.isEmpty_cons,
    Bool.not_false, stackOf_anchored]

theorem prefix_withSlash (text : Text) : text <+: withSlash text := by
  rw [withSlash]
  split
  · exact List.prefix_rfl
  · exact List.prefix_append ..

theorem anchor_prefix_render (frame : Frame) (components : List Text) :
    frame.anchor <+: frame.render components := by
  rw [Frame.render]
  refine .trans ?_ (prefix_withSlash _)
  split_ifs with hrooted hsome hanchor
  · exact List.prefix_append ..
  · exact List.prefix_append ..
  · exact List.prefix_rfl
  · simp_all
  · simp_all

/-- Whatever becomes of a path, it is written with its anchor in front. -/
theorem anchor_prefix_written (os : Platform) (path : Text) (capacity : Int) :
    (splitAnchor os path).1 <+: canonical os path capacity ∧
      (splitAnchor os path).1 <+: whole os path := by
  constructor
  · simp only [canonical, Frame.fit_eq_render]
    exact anchor_prefix_render (frameOf os path) _
  · exact anchor_prefix_render (frameOf os path) _

end PaneCompletion.Path
