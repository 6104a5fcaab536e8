import PaneCompletion.Proofs.Path.Undotted

/-!
# Anchored paths in lower case

Paths behind anchors that are equal in lower case are so anchor by anchor and component by component
(`lower_anchored_inj`, `lower_slashed_inj`), and a drive is never equal to a host. Of a path that is
not cut the canonical form shows the anchor and the names that it leads to (`Anchored`), and without
the slash at its end it is read as it was.

1. lower case;
2. the same anchor;
3. paths that their canonical forms show in full.
-/

namespace PaneCompletion.Path

open Text (pieces)

variable {anchor other rest more : Text} {s t : List Text}

/-! ## Lower case -/

theorem equal_windows_iff {a b : Text} :
    equal .windows a b = true ↔
      Text.lower (canonical .windows a) = Text.lower (canonical .windows b) :=
  beq_iff_eq

theorem lower_host (name : Text) :
    Text.lower ('/' :: '/' :: name) = '/' :: '/' :: Text.lower name := by
  rw [← List.nil_append ('/' :: '/' :: name), Text.lower_append_slash,
    ← List.nil_append ('/' :: name), Text.lower_append_slash]
  rfl

/-- No letter stands in front of a drive's, so a sigma there has its usual form whatever follows. -/
theorem lower_drive (letter : Char) : Text.lower [letter, ':'] = Text.lower [letter] ++ [':'] := by
  have hcolon : Text.lowerAfter [letter] [':'] = [':'] := rfl
  show (if letter = 'Σ' then ['σ'] else Text.lowerChar letter) ++ Text.lowerAfter [letter] [':'] =
    ((if letter = 'Σ' then ['σ'] else Text.lowerChar letter) ++ []) ++ [':']
  rw [hcolon, List.append_nil]

theorem lower_slashed (components : List Text) :
    Text.lower (slashed components) = slashed (components.map Text.lower) := by
  induction components with
  | nil => rfl
  | cons c more ih => rw [slashed_cons, Text.lower_append_slash, ih, List.map_cons, slashed_cons]

theorem Parts.map_lower {components : List Text} (h : Parts components) :
    Parts (components.map Text.lower) := by
  intro c hc
  obtain ⟨component, hcomponent, rfl⟩ := List.mem_map.mp hc
  obtain ⟨hne, hslash⟩ := h component hcomponent
  exact ⟨Text.lower_ne_nil hne, Text.not_slash_mem_lower hslash⟩

theorem lower_slashed_inj {a b : List Text} (ha : Parts a) (hb : Parts b) :
    Text.lower (slashed a) = Text.lower (slashed b) ↔ a.map Text.lower = b.map Text.lower := by
  rw [lower_slashed, lower_slashed, slashed_inj ha.map_lower hb.map_lower]

/-- Paths behind anchors that are equal in lower case are so in front of the slash and behind it. -/
theorem lower_anchored_inj {anchor other : Text} (hanchor : IsAnchor anchor)
    (hother : IsAnchor other) {rest more : Text}
    (h : Text.lower (anchor ++ '/' :: rest) = Text.lower (other ++ '/' :: more)) :
    Text.lower anchor = Text.lower other ∧ Text.lower rest = Text.lower more := by
  have hanchors : Text.lower anchor = Text.lower other := by
    have hpieces := congrArg (pieces '/') h
    rw [Text.pieces_lower, Text.pieces_lower, Text.pieces_append, Text.pieces_append,
      List.map_append, List.map_append] at hpieces
    have hhost : ∀ {name : Text}, '/' ∉ name →
        (pieces '/' ('/' :: '/' :: name)).map Text.lower = [[], [], Text.lower name] := by
      intro name hslash
      rw [Text.pieces_cons_separator, Text.pieces_cons_separator, Text.pieces_eq_singleton hslash]
      rfl
    cases hanchor with
    | @drive letter hletter =>
      rw [Text.pieces_eq_singleton (no_slash_drive hletter)] at hpieces
      cases hother with
      | drive hletter =>
        rw [Text.pieces_eq_singleton (no_slash_drive hletter)] at hpieces
        exact (List.cons.inj hpieces).1
      | host hne hslash =>
        rw [hhost hslash] at hpieces
        exact absurd (List.cons.inj hpieces).1 (Text.lower_ne_nil (List.cons_ne_nil _ _))
    | host hne hslash =>
      rw [hhost hslash] at hpieces
      cases hother with
      | drive hletter =>
        rw [Text.pieces_eq_singleton (no_slash_drive hletter)] at hpieces
        exact absurd (List.cons.inj hpieces).1.symm (Text.lower_ne_nil (List.cons_ne_nil _ _))
      | host hne hslash =>
        rw [hhost hslash] at hpieces
        rw [lower_host, lower_host, (List.cons.inj (List.cons.inj (List.cons.inj hpieces).2).2).1]
  rw [Text.lower_append_slash, Text.lower_append_slash, hanchors] at h
  exact ⟨hanchors, (List.cons.inj (List.append_cancel_left h)).2⟩

/-! ## The same anchor -/

theorem alike_host_iff {name name' : Text} :
    Alike .windows ('/' :: '/' :: name) ('/' :: '/' :: name') ↔ Alike .windows name name' := by
  simp [Alike, same_iff, Platform.fold, lower_host]

theorem not_same_drive_host {letter : Char} (hletter : Text.isLetter letter = true) (name : Text) :
    ¬Platform.same .windows [letter, ':'] ('/' :: '/' :: name) = true := by
  rw [same_iff, Platform.fold, Platform.fold, lower_host]
  intro heq
  exact Text.not_slash_mem_lower (no_slash_drive hletter) (by simp [heq])

theorem same_drive (letter letter' : Char) :
    Platform.same .windows [letter, ':'] [letter', ':'] =
      Platform.same .windows [letter] [letter'] := by
  rw [Bool.eq_iff_iff, same_iff, same_iff, Platform.fold, Platform.fold, Platform.fold,
    Platform.fold, lower_drive, lower_drive, List.append_cancel_right_eq]

theorem onDifferentDrives_eq (hanchor : IsAnchor anchor) (hother : IsAnchor other)
    (s t : List Text) :
    onDifferentDrives .windows (anchor ++ stem s) (other ++ stem t) =
      (hasDrive anchor && hasDrive other && !Platform.same .windows anchor other) := by
  cases hanchor with
  | @drive letter hletter =>
    cases hother with
    | @drive letter' hletter' =>
      have hdrive : hasDrive [letter, ':'] = true := hletter
      have hdrive' : hasDrive [letter', ':'] = true := hletter'
      rw [hdrive, hdrive', same_drive]
      rfl
    | host hne hslash => simp [onDifferentDrives, hasDrive]
  | host hne hslash => simp [onDifferentDrives, hasDrive]

/-! ## Paths that their canonical forms show in full -/

/-- A path behind an anchor whose canonical form shows all the names that it leads to. -/
structure Anchored (anchor rest : Text) (names : List Text) : Prop where
  isAnchor : IsAnchor anchor
  behind_eq : behind true rest = names.reverse
  canonical_eq : canonical .windows (anchor ++ '/' :: rest) = anchor ++ '/' :: slashed names

/-- Where components behind an anchor lead. -/
def locationBehind (rest : Text) : List Text := (behind true rest).reverse

theorem anchored_of_untruncated {anchor rest : Text} (h : IsAnchor anchor)
    (hpath : Untruncated .windows (anchor ++ '/' :: rest)) :
    Anchored anchor rest (locationBehind rest) :=
  ⟨h, (List.reverse_reverse _).symm, hpath.trans (whole_rooted h rest)⟩

theorem Anchored.goDown (h : Anchored anchor rest s) : GoDown s := by
  have hdown := goDown_behind rest
  rwa [h.behind_eq, List.reverse_reverse] at hdown

theorem Anchored.length_lt (h : Anchored anchor rest s) (hne : s ≠ []) :
    (anchor ++ '/' :: slashed s).length < limit := by
  have hcanonical := canonical_rooted h.isAnchor rest limit
  rw [h.canonical_eq, h.behind_eq, Frame.fit_eq_render] at hcanonical
  have hkept : (Frame.mk anchor true true).kept limit s.reverse ≠ [] := by
    intro hnone
    rw [hnone, List.reverse_nil, render_rooted anchor true names_nil.parts] at hcanonical
    have hslashed := (List.cons.inj (List.append_cancel_left hcanonical)).2
    exact hne ((slashed_inj h.goDown.parts names_nil.parts).mp hslashed)
  have hroom := Frame.length_render_kept_le hkept
  rw [← hcanonical] at hroom
  omega

theorem Anchored.dropSlash_eq (h : Anchored anchor rest s) :
    dropSlash (canonical .windows (anchor ++ '/' :: rest)) = anchor ++ stem s := by
  rw [h.canonical_eq, cons_slashed, ← List.append_assoc, dropSlash_append_slash]

/-- Without the slash at its end a canonical form is read as it was. -/
theorem Anchored.canonical_stem (h : Anchored anchor rest s) :
    canonical .windows (anchor ++ stem s) = anchor ++ '/' :: slashed s := by
  by_cases hnone : s = []
  · subst hnone
    rw [stem_nil, List.append_nil]
    cases h.isAnchor with
    | drive hletter =>
      rw [canonical_drive hletter (by simp)]
      rfl
    | host hne hslash => exact canonical_share hne hslash limit
  · have hroom := h.length_lt hnone
    rw [← cons_joined hnone, canonical_rooted h.isAnchor, h.goDown.behind_joined hnone,
      fit_rooted h.goDown.parts]
    exact fun _ => by omega

theorem Anchored.equal_stem (h : Anchored anchor rest s) :
    equal .windows (anchor ++ stem s) (anchor ++ '/' :: rest) = true := by
  rw [equal_windows_iff, h.canonical_stem, h.canonical_eq]

end PaneCompletion.Path
