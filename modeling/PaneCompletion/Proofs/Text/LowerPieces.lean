import PaneCompletion.Proofs.Text.LowerCase
import PaneCompletion.Proofs.Text.Pieces

/-!
# Lower case piece by piece

No sigma sees past a slash, and nothing becomes a slash in lower case but a slash. So a text is
lower-cased piece by piece (`pieces_lower`), and texts are equal in lower case exactly if their
pieces are. A text gets longer by one character for each capital I with a dot above it has
(`length_lower`).

1. slashes;
2. pieces;
3. lengths.
-/

namespace PaneCompletion.Text

/-! ## Slashes -/

theorem lowerAfter_behind_slash (before beyond text : Text) :
    lowerAfter (before ++ '/' :: beyond) text = lowerAfter before text := by
  induction text generalizing before with
  | nil => rfl
  | cons c rest ih =>
    rw [lowerAfter, lowerAfter, lowerSigma, lowerSigma, meetsCased_append_slash,
      ← List.cons_append, ih]

theorem lowerAfter_append_slash (before a b : Text) :
    lowerAfter before (a ++ '/' :: b) = lowerAfter before a ++ '/' :: lower b := by
  induction a generalizing before with
  | nil => exact congrArg ('/' :: ·) (lowerAfter_behind_slash [] before b)
  | cons c rest ih =>
    rw [List.cons_append, lowerAfter, lowerAfter, ih, lowerSigma, lowerSigma,
      meetsCased_append_slash, List.append_assoc]

theorem lower_append_slash (a b : Text) : lower (a ++ '/' :: b) = lower a ++ '/' :: lower b :=
  lowerAfter_append_slash [] a b

theorem lowerPoint_eq_slash {n : Nat} {runs : List (Nat × Nat × Nat × Int)}
    (hruns : ∀ run ∈ runs, '/'.toNat < run.1 + run.2.2.2) (h : lowerPoint n runs = '/'.toNat) :
    n = '/'.toNat := by
  induction runs with
  | nil => exact h
  | cons run rest ih =>
    obtain ⟨low, high, step, delta⟩ := run
    have hrun : (('/'.toNat : Nat) : Int) < low + delta := hruns _ List.mem_cons_self
    rw [lowerPoint] at h
    split_ifs at h with hlow hhigh
    · exact h
    · omega
    · exact ih (fun run hrun => hruns run (List.mem_cons_of_mem _ hrun)) h

theorem eq_toNat_of_ofNat {n : Nat} {c : Char} (hc : c ≠ '\x00') (h : Char.ofNat n = c) :
    n = c.toNat := by
  by_cases hvalid : n.isValidChar
  · rw [← h, Char.ofNat, dif_pos hvalid]
    rfl
  · rw [Char.ofNat, dif_neg hvalid] at h
    exact absurd h.symm hc

theorem not_slash_mem_lowerChar {c : Char} (hc : c ≠ '/') : '/' ∉ lowerChar c := by
  rw [lowerChar]
  split
  · decide
  · rw [List.mem_singleton]
    intro hslash
    have hpoint := eq_toNat_of_ofNat (by decide) hslash.symm
    have hruns : ∀ run ∈ lowerRuns, ('/'.toNat : Int) < run.1 + run.2.2.2 := by decide +kernel
    exact hc (Char.toNat_inj.mp (lowerPoint_eq_slash hruns hpoint))

theorem not_slash_mem_lower {text : Text} (h : '/' ∉ text) : '/' ∉ lower text := by
  suffices hafter : ∀ before, '/' ∉ lowerAfter before text from hafter []
  induction text with
  | nil => exact fun before => List.not_mem_nil
  | cons c rest ih =>
    intro before
    obtain ⟨hc, hrest⟩ : '/' ≠ c ∧ '/' ∉ rest := by simpa using h
    rw [lowerAfter, List.mem_append, not_or]
    refine ⟨?_, ih hrest _⟩
    split
    · rw [lowerSigma]
      split <;> decide
    · exact not_slash_mem_lowerChar hc.symm

theorem slash_prefix_lower_iff {text : Text} : ['/'] <+: lower text ↔ ['/'] <+: text := by
  cases text with
  | nil => exact Iff.rfl
  | cons c rest =>
    by_cases hc : c = '/'
    · have hlower := lower_append_slash [] rest
      rw [hc]
      exact iff_of_true (hlower ▸ List.prefix_append ['/'] _) (List.prefix_append ['/'] rest)
    · obtain ⟨d, more, hfirst, hd⟩ : ∃ d more,
          (if c = 'Σ' then [lowerSigma [] rest] else lowerChar c) = d :: more ∧ '/' ≠ d := by
        split
        · exact ⟨'σ', [], rfl, by decide⟩
        · have hslash := not_slash_mem_lowerChar hc
          obtain ⟨d, more, hchar⟩ : ∃ d more, lowerChar c = d :: more := by
            rw [lowerChar]
            split <;> exact ⟨_, _, rfl⟩
          rw [hchar] at hslash ⊢
          exact ⟨d, more, rfl, fun h => hslash (h ▸ List.mem_cons_self)⟩
      rw [lower, lowerAfter, hfirst]
      exact iff_of_false (by simpa using hd) (by simpa using Ne.symm hc)

/-! ## Pieces -/

theorem lower_joined (texts : List Text) :
    lower (joined ['/'] texts) = joined ['/'] (texts.map lower) := by
  induction texts with
  | nil => rfl
  | cons first more ih =>
    by_cases hmore : more = []
    · subst hmore
      rfl
    · have hmap : more.map lower ≠ [] := by simpa using hmore
      rw [joined_cons _ _ hmore, List.append_assoc, List.singleton_append, lower_append_slash, ih,
        List.map_cons, joined_cons _ _ hmap, List.append_assoc, List.singleton_append]

/-- A text is lower-cased piece by piece. -/
theorem pieces_lower (text : Text) : pieces '/' (lower text) = (pieces '/' text).map lower := by
  have hslash : ∀ piece ∈ (pieces '/' text).map lower, '/' ∉ piece := by
    intro piece hpiece
    obtain ⟨part, hpart, rfl⟩ := List.mem_map.mp hpiece
    exact not_slash_mem_lower (not_mem_of_mem_pieces hpart)
  have hlower := lower_joined (pieces '/' text)
  rw [joined_pieces] at hlower
  rw [hlower, pieces_joined (by simpa using pieces_ne_nil '/' text) hslash]

/-! ## Lengths -/

/-- A capital I with a dot above becomes two characters, any other character one. -/
theorem length_lowerAfter (before text : Text) :
    (lowerAfter before text).length = text.length + text.count '\u0130' := by
  induction text generalizing before with
  | nil => rfl
  | cons c rest ih =>
    have hfirst : (if c = 'Σ' then [lowerSigma before rest] else lowerChar c).length =
        1 + if c == '\u0130' then 1 else 0 := by
      by_cases hsigma : c = 'Σ'
      · subst hsigma
        rfl
      · by_cases hdotted : c = '\u0130' <;> simp [lowerChar, hsigma, hdotted]
    rw [lowerAfter, List.length_append, ih, hfirst, List.length_cons, List.count_cons]
    omega

theorem length_lower (text : Text) :
    (lower text).length = text.length + text.count '\u0130' :=
  length_lowerAfter [] text

theorem lower_ne_nil {text : Text} (h : text ≠ []) : lower text ≠ [] := by
  obtain ⟨c, rest, rfl⟩ := List.exists_cons_of_ne_nil h
  rw [lower, lowerAfter, lowerChar]
  split_ifs <;> simp

/-- Behind the same beginning nothing is left of a text that is no longer in lower case. -/
theorem lower_append_eq_left {a b : Text} : lower (a ++ b) = lower a ↔ b = [] := by
  constructor
  · intro h
    by_contra hne
    have hlength := congrArg List.length h
    have hsome := List.length_pos_iff.mpr hne
    rw [length_lower, length_lower, List.length_append, List.count_append] at hlength
    omega
  · rintro rfl
    rw [List.append_nil]

end PaneCompletion.Text
