import Mathlib.Data.List.Basic
import Mathlib.Data.List.TakeWhile
import Mathlib.Tactic.Tauto
import PaneCompletion.Text.LowerCase

/-!
# Lower case of beginnings

Lower-casing goes from character to character, but for the sigma, whose form depends on what stands
around it. A text that goes on differently after a beginning can therefore only differ in the form
of a sigma there, and only of the last one, with nothing but case-ignorable characters behind it:
every other sigma is decided inside the beginning. So the beginning stays one in lower case, unless
it ends in a final sigma (`FinalSigma`) and goes on with a letter (`lower_prefix_iff`).
-/

namespace PaneCompletion.Text

/-- The last letter of a text is a sigma, and a letter stands somewhere in front of it; what stands
before the text is given nearest first. -/
def FinalSigma (before text : Text) : Prop :=
  ∃ front marks, text = front ++ 'Σ' :: marks ∧ (∀ c ∈ marks, isCaseIgnorable c = true) ∧
    meetsCased (front.reverse ++ before) = true

/-- The sigma at the end of a typed text is final there and not in a word that begins with it, since
the word goes on with a letter. -/
def LosesSigma (typed word : Text) : Prop :=
  ∃ rest, word = typed ++ rest ∧ FinalSigma [] typed ∧ meetsCased rest = true

/-! ## What a sigma meets -/

theorem meetsCased_append {marks : Text} (h : ∀ c ∈ marks, isCaseIgnorable c = true) (rest : Text) :
    meetsCased (marks ++ rest) = meetsCased rest := by
  rw [meetsCased, meetsCased, List.dropWhile_append_of_pos h]

/-- What comes behind a text matters only where all of it is case-ignorable. -/
theorem meetsCased_append_of_mem {text : Text} {c : Char} (hc : c ∈ text)
    (hstops : isCaseIgnorable c = false) (rest : Text) :
    meetsCased (text ++ rest) = meetsCased text := by
  have hne : text.dropWhile isCaseIgnorable ≠ [] := by
    intro hnil
    rw [List.dropWhile_eq_nil_iff] at hnil
    rw [hnil c hc] at hstops
    cases hstops
  rw [meetsCased, meetsCased, List.dropWhile_append, if_neg (by simpa using hne)]
  cases htext : text.dropWhile isCaseIgnorable with
  | nil => exact absurd htext hne
  | cons d more => rfl

theorem meetsCased_of_ignorable {marks : Text} (h : ∀ c ∈ marks, isCaseIgnorable c = true) :
    meetsCased marks = false := by
  rw [meetsCased, List.dropWhile_eq_nil_iff.mpr h]

/-- A slash has no case and stops the look for a letter. -/
theorem meetsCased_append_slash (text rest : Text) :
    meetsCased (text ++ '/' :: rest) = meetsCased text := by
  have hslash : isCaseIgnorable '/' = false := by decide
  by_cases hall : ∀ c ∈ text, isCaseIgnorable c = true
  · rw [meetsCased_append hall, meetsCased_of_ignorable hall, meetsCased,
      List.dropWhile_cons_of_neg (by simp [hslash])]
    exact (by decide : isCased '/' = false)
  · obtain ⟨c, hc, hstops⟩ : ∃ c ∈ text, isCaseIgnorable c = false := by simpa using hall
    exact meetsCased_append_of_mem hc hstops _

/-! ## Beginnings -/

theorem not_finalSigma_nil (before : Text) : ¬FinalSigma before [] := by
  rintro ⟨front, marks, h, -⟩
  simp at h

theorem finalSigma_cons {before text : Text} {c : Char} :
    FinalSigma before (c :: text) ↔
      (c = 'Σ' ∧ (∀ d ∈ text, isCaseIgnorable d = true) ∧ meetsCased before = true) ∨
        FinalSigma (c :: before) text := by
  constructor
  · rintro ⟨front, marks, htext, hmarks, hbefore⟩
    cases front with
    | nil =>
      obtain ⟨rfl, rfl⟩ := List.cons.inj htext
      exact .inl ⟨rfl, hmarks, hbefore⟩
    | cons d front =>
      obtain ⟨rfl, rfl⟩ := List.cons.inj htext
      exact .inr ⟨front, marks, rfl, hmarks, by simpa using hbefore⟩
  · rintro (⟨rfl, hmarks, hbefore⟩ | ⟨front, marks, rfl, hmarks, hbefore⟩)
    · exact ⟨[], text, rfl, hmarks, hbefore⟩
    · exact ⟨c :: front, marks, rfl, hmarks, by simpa using hbefore⟩

/-- A sigma in front of a text keeps its form when the text goes on, unless nothing in the text
decides it. -/
theorem lowerSigma_append_iff (before text rest : Text) :
    lowerSigma before text = lowerSigma before (text ++ rest) ↔
      ¬((∀ c ∈ text, isCaseIgnorable c = true) ∧ meetsCased before = true ∧
        meetsCased rest = true) := by
  by_cases hall : ∀ c ∈ text, isCaseIgnorable c = true
  · rw [lowerSigma, lowerSigma, meetsCased_append hall, meetsCased_of_ignorable hall,
      and_iff_right hall]
    cases meetsCased before <;> cases meetsCased rest <;> decide
  · obtain ⟨c, hc, hstops⟩ : ∃ c ∈ text, isCaseIgnorable c = false := by simpa using hall
    rw [lowerSigma, lowerSigma, meetsCased_append_of_mem hc hstops]
    simp [hall]

/-- In lower case a text is a beginning of what it goes on to, unless a final sigma at its end meets
a letter. -/
theorem lowerAfter_prefix_iff (before text rest : Text) :
    lowerAfter before text <+: lowerAfter before (text ++ rest) ↔
      ¬(FinalSigma before text ∧ meetsCased rest = true) := by
  induction text generalizing before with
  | nil => simp [lowerAfter, not_finalSigma_nil]
  | cons c text ih =>
    rw [List.cons_append, lowerAfter, lowerAfter]
    by_cases hsigma : c = 'Σ'
    · rw [if_pos hsigma, if_pos hsigma, List.singleton_append, List.singleton_append,
        List.cons_prefix_cons, ih, lowerSigma_append_iff, finalSigma_cons]
      tauto
    · rw [if_neg hsigma, if_neg hsigma, List.prefix_append_right_inj, ih, finalSigma_cons]
      simp [hsigma]

/-- Letter case aside a word begins with every beginning of it, but for one whose sigma it loses. -/
theorem lower_prefix_iff {typed word : Text} (h : typed <+: word) :
    lower typed <+: lower word ↔ ¬LosesSigma typed word := by
  obtain ⟨rest, rfl⟩ := h
  rw [lower, lower, lowerAfter_prefix_iff]
  refine not_congr ⟨fun hloses => ⟨rest, rfl, hloses⟩, ?_⟩
  rintro ⟨other, hother, hloses⟩
  obtain rfl := List.append_cancel_left hother
  exact hloses

theorem LosesSigma.begins {typed word : Text} (h : LosesSigma typed word) : typed <+: word := by
  obtain ⟨rest, rfl, -⟩ := h
  exact List.prefix_append typed rest

theorem not_losesSigma_self (text : Text) : ¬LosesSigma text text := by
  rintro ⟨rest, heq, -, hmeets⟩
  obtain rfl : rest = [] := by simpa using heq
  cases hmeets

/-- A slash behind a word is no letter. -/
theorem losesSigma_append_slash {typed word : Text} :
    LosesSigma typed (word ++ ['/']) ↔ LosesSigma typed word := by
  constructor
  · rintro ⟨rest, hrest, hsigma, hmeets⟩
    rcases List.eq_nil_or_concat rest with rfl | ⟨front, c, rfl⟩
    · cases hmeets
    · rw [List.concat_eq_append] at hrest hmeets
      rw [← List.append_assoc] at hrest
      obtain ⟨rfl, hc⟩ := List.append_inj' hrest rfl
      obtain rfl : '/' = c := List.singleton_inj.mp hc
      exact ⟨front, rfl, hsigma, (meetsCased_append_slash front []).symm.trans hmeets⟩
  · rintro ⟨rest, rfl, hsigma, hmeets⟩
    exact ⟨rest ++ ['/'], List.append_assoc _ _ _, hsigma,
      (meetsCased_append_slash rest []).trans hmeets⟩

end PaneCompletion.Text
