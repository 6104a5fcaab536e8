import PaneCompletion.Text.Letter

/-!
# ASCII letters and digits

The tables of letters and numbers begin with the ASCII ones, so a command name in ASCII is read as
one.
-/

namespace PaneCompletion.Text

theorem inRanges_of_mem {n low high : Nat} (hlow : low ≤ n) (hhigh : n ≤ high)
    (rest : List (Nat × Nat)) : inRanges n ((low, high) :: rest) = true := by
  rw [inRanges, if_neg (by omega)]
  simp [hhigh]

theorem inRanges_of_lt {n low high : Nat} (hlow : low ≤ n) (hhigh : high < n)
    (rest : List (Nat × Nat)) : inRanges n ((low, high) :: rest) = inRanges n rest := by
  rw [inRanges, if_neg (by omega)]
  simp [show ¬n ≤ high by omega]

theorem toNat_of_isUpper {c : Char} (hc : c.isUpper = true) : 65 ≤ c.toNat ∧ c.toNat ≤ 90 := by
  have hrange : c.val ≥ 'A'.val ∧ c.val ≤ 'Z'.val := of_decide_eq_true hc
  exact hrange

theorem toNat_of_isLower {c : Char} (hc : c.isLower = true) : 97 ≤ c.toNat ∧ c.toNat ≤ 122 := by
  obtain ⟨hlow, hhigh⟩ := Bool.and_eq_true_iff.mp hc
  exact ⟨of_decide_eq_true hlow, of_decide_eq_true hhigh⟩

theorem toNat_of_isDigit {c : Char} (hc : c.isDigit = true) : 48 ≤ c.toNat ∧ c.toNat ≤ 57 := by
  obtain ⟨hlow, hhigh⟩ := Bool.and_eq_true_iff.mp hc
  exact ⟨of_decide_eq_true hlow, of_decide_eq_true hhigh⟩

theorem isLetter_of_isAlpha {c : Char} (hc : c.isAlpha = true) : isLetter c = true := by
  rw [isLetter, letterRanges]
  rcases Bool.or_eq_true_iff.mp hc with hupper | hlower
  · obtain ⟨hlow, hhigh⟩ := toNat_of_isUpper hupper
    exact inRanges_of_mem hlow hhigh _
  · obtain ⟨hlow, hhigh⟩ := toNat_of_isLower hlower
    rw [inRanges_of_lt (by omega) (by omega)]
    exact inRanges_of_mem hlow hhigh _

theorem isLetterOrNumber_of_isAlphanum {c : Char} (hc : c.isAlphanum = true) :
    isLetterOrNumber c = true := by
  rw [isLetterOrNumber, Bool.or_eq_true]
  rcases Bool.or_eq_true_iff.mp hc with halpha | hdigit
  · exact .inl (isLetter_of_isAlpha halpha)
  · obtain ⟨hlow, hhigh⟩ := toNat_of_isDigit hdigit
    rw [numericRanges]
    exact .inr (inRanges_of_mem hlow hhigh _)

end PaneCompletion.Text
