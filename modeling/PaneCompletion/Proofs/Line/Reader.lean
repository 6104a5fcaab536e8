import Mathlib.Tactic.ByContra
import Mathlib.Tactic.SplitIfs
import PaneCompletion.Line.Token

/-!
# Runs of the word reader

What a run of the reader keeps, stated once, so that no later proof follows the reader character by
character through text it has no business with.

The one fact the rest leans on is `run_behind`: a reader that has read something else before does
to a text what a fresh reader does, with its offset and its words put in front. Between two words
the two are the same reader (`behind_start`), so words can be read one at a time and their results
put together (`tokenize_append`).

1. runs;
2. what one character changes;
3. reading behind another reader;
4. inside a word;
5. what every run keeps;
6. texts that end between words.
-/

namespace PaneCompletion.Token

/-- The two characters that separate words. -/
abbrev Separates (c : Char) : Prop := c = ' ' ∨ c = '\t'

/-- The characters that mean nothing to the word reader. -/
def Ordinary (c : Char) : Prop := ¬Separates c ∧ c ≠ '\\' ∧ isQuote c = false

namespace Reader

/-! ## Runs -/

@[simp] theorem run_nil (r : Reader) : r.run [] = r := rfl

@[simp] theorem run_cons (r : Reader) (c : Char) (text : Text) :
    r.run (c :: text) = (r.step c).run text := rfl

theorem run_append (r : Reader) (a b : Text) : r.run (a ++ b) = (r.run a).run b := by
  simp [run, List.foldl_append]

/-! ## What one character changes -/

/-- The reader once a word has begun, before its first character. -/
def opened (r : Reader) : Reader := { r with starts := r.starts ++ [r.offset], mode := .bare }

/-- The reader once the word under way has ended. -/
def closed (r : Reader) : Reader :=
  { r with words := r.words ++ [r.value], value := [], mode := .gap }

/-- Outside quotes every character but a separator takes the word on. -/
theorem bareStep_goes_on (r : Reader) {c : Char} (hc : ¬Separates c) :
    ∃ mode value, mode ≠ .gap ∧ r.bareStep c = r.move mode value := by
  simp only [bareStep, if_neg hc]
  split_ifs
  · exact ⟨.bareEscape, r.value, by simp, rfl⟩
  · exact ⟨.single, r.value, by simp, rfl⟩
  · exact ⟨.double, r.value, by simp, rfl⟩
  · exact ⟨.bare, r.value ++ [c], by simp, rfl⟩

/-- Outside quotes a word goes on, or a separator ends it. -/
theorem bareStep_cases (r : Reader) (c : Char) :
    (Separates c ∧ r.bareStep c = r.closed.move .gap []) ∨
      ∃ mode value, mode ≠ .gap ∧ r.bareStep c = r.move mode value := by
  by_cases hc : Separates c
  · exact .inl ⟨hc, by rw [bareStep, if_pos hc]; rfl⟩
  · exact .inr (bareStep_goes_on r hc)

/-- All that a character can do: lengthen a gap, begin a word, end one, or take one on. -/
theorem step_cases (r : Reader) (c : Char) :
    (r.mode = .gap ∧ Separates c ∧ r.step c = r.move .gap r.value) ∨
    (r.mode = .gap ∧ ¬Separates c ∧
      ∃ mode value, mode ≠ .gap ∧ r.step c = r.opened.move mode value) ∨
    (r.mode ≠ .gap ∧ Separates c ∧ r.step c = r.closed.move .gap []) ∨
    (r.mode ≠ .gap ∧ ∃ mode value, mode ≠ .gap ∧ r.step c = r.move mode value) := by
  cases hmode : r.mode with
  | gap =>
    by_cases hc : Separates c
    · exact .inl ⟨rfl, hc, by simp only [step, hmode, if_pos hc]⟩
    · obtain ⟨mode, value, hne, heq⟩ := bareStep_goes_on r.opened hc
      refine .inr (.inl ⟨rfl, hc, mode, value, hne, ?_⟩)
      rw [← heq]
      simp only [step, hmode, if_neg hc]
      rfl
  | bare =>
    rcases bareStep_cases r c with ⟨hc, heq⟩ | ⟨mode, value, hne, heq⟩
    · exact .inr (.inr (.inl ⟨by simp, hc, by simpa only [step, hmode] using heq⟩))
    · exact .inr (.inr (.inr ⟨by simp, mode, value, hne, by simpa only [step, hmode] using heq⟩))
  | singleEnd =>
    by_cases hquote : c = '\''
    · refine .inr (.inr (.inr ⟨by simp, .single, r.value ++ ['\''], by simp, ?_⟩))
      simp only [step, hmode, if_pos hquote]
    · rcases bareStep_cases r c with ⟨hc, heq⟩ | ⟨mode, value, hne, heq⟩
      · refine .inr (.inr (.inl ⟨by simp, hc, ?_⟩))
        simpa only [step, hmode, if_neg hquote] using heq
      · refine .inr (.inr (.inr ⟨by simp, mode, value, hne, ?_⟩))
        simpa only [step, hmode, if_neg hquote] using heq
  | bareEscape =>
    refine .inr (.inr (.inr ⟨by simp, .bare, r.value ++ [c], by simp, ?_⟩))
    simp only [step, hmode]
  | single =>
    refine .inr (.inr (.inr ⟨by simp, ?_⟩))
    simp only [step, hmode]
    split_ifs
    · exact ⟨.singleEnd, _, by simp, rfl⟩
    · exact ⟨.single, _, by simp, rfl⟩
  | double =>
    refine .inr (.inr (.inr ⟨by simp, ?_⟩))
    simp only [step, hmode]
    split_ifs
    · exact ⟨.doubleEscape, _, by simp, rfl⟩
    · exact ⟨.bare, _, by simp, rfl⟩
    · exact ⟨.double, _, by simp, rfl⟩
  | doubleEscape =>
    refine .inr (.inr (.inr ⟨by simp, .double, r.value ++ [escaped c], by simp, ?_⟩))
    simp only [step, hmode]

@[simp] theorem offset_step (r : Reader) (c : Char) : (r.step c).offset = r.offset + 1 := by
  rcases step_cases r c with ⟨-, -, h⟩ | ⟨-, -, _, _, -, h⟩ | ⟨-, -, h⟩ | ⟨-, _, _, -, h⟩ <;>
    rw [h] <;> rfl

/-- A word begins where something else than a separator follows a gap. -/
theorem starts_step (r : Reader) (c : Char) :
    (r.step c).starts =
      if r.mode = .gap ∧ ¬Separates c then r.starts ++ [r.offset] else r.starts := by
  rcases step_cases r c with
    ⟨-, hc, h⟩ | ⟨hmode, hc, _, _, -, h⟩ | ⟨hmode, -, h⟩ | ⟨hmode, _, _, -, h⟩
  · rw [h, if_neg (fun hn => hn.2 hc)]
    rfl
  · rw [h, if_pos ⟨hmode, hc⟩]
    rfl
  · rw [h, if_neg (fun hn => hmode hn.1)]
    rfl
  · rw [h, if_neg (fun hn => hmode hn.1)]
    rfl

/-- No word that is finished is taken back. -/
theorem words_prefix_step (r : Reader) (c : Char) : r.words <+: (r.step c).words := by
  rcases step_cases r c with ⟨-, -, h⟩ | ⟨-, -, _, _, -, h⟩ | ⟨-, -, h⟩ | ⟨-, _, _, -, h⟩
  · exact h ▸ List.prefix_rfl
  · exact h ▸ List.prefix_rfl
  · exact h ▸ List.prefix_append _ _
  · exact h ▸ List.prefix_rfl

theorem offset_run (r : Reader) (text : Text) :
    (r.run text).offset = r.offset + text.length := by
  induction text generalizing r with
  | nil => rfl
  | cons c rest ih =>
    rw [run_cons, ih, offset_step, List.length_cons]
    omega

theorem words_prefix_run (r : Reader) (text : Text) : r.words <+: (r.run text).words := by
  induction text generalizing r with
  | nil => exact List.prefix_rfl
  | cons c rest ih => exact (words_prefix_step r c).trans (ih (r.step c))

theorem starts_prefix_run (r : Reader) (text : Text) : r.starts <+: (r.run text).starts := by
  induction text generalizing r with
  | nil => exact List.prefix_rfl
  | cons c rest ih =>
    have hstep : r.starts <+: (r.step c).starts := by
      rw [starts_step]
      split_ifs
      · exact List.prefix_append _ _
      · exact List.prefix_rfl
    exact hstep.trans (ih (r.step c))

/-- The first character of a word is read as any other character of it. -/
theorem run_eq_opened {r : Reader} (hgap : r.mode = .gap) {c : Char} (hc : ¬Separates c)
    (text : Text) : r.run (c :: text) = r.opened.run (c :: text) := by
  have hstep : r.step c = r.opened.step c := by
    simp only [step, hgap, opened, if_neg hc]
    rfl
  rw [run_cons, run_cons, hstep]

/-! ## Reading behind another reader -/

/-- A reader with what another one has read put in front. -/
def behind (before r : Reader) : Reader :=
  { r with
    offset := before.offset + r.offset
    words := before.words ++ r.words
    starts := before.starts ++ r.starts.map (before.offset + ·) }

theorem step_behind (before r : Reader) (c : Char) :
    (before.behind r).step c = before.behind (r.step c) := by
  cases r with
  | mk offset words starts value mode =>
    cases mode <;> simp only [behind, step, bareStep, move] <;> (try split_ifs) <;>
      simp [Nat.add_assoc]

/-- What has been read before changes nothing in how a text is read. -/
theorem run_behind (before r : Reader) (text : Text) :
    (before.behind r).run text = before.behind (r.run text) := by
  induction text generalizing r with
  | nil => rfl
  | cons c rest ih => rw [run_cons, run_cons, step_behind, ih]

theorem allWords_behind (before r : Reader) :
    (before.behind r).allWords = before.words ++ r.allWords := by
  cases r with
  | mk offset words starts value mode => cases mode <;> simp [behind, allWords]

/-! ## Inside a word -/

/-- The reader once it has read, inside a word, a text that stands for a value. -/
def took (r : Reader) (text value : Text) : Reader :=
  { r with offset := r.offset + text.length, value := r.value ++ value }

theorem took_took (r : Reader) (a b v w : Text) :
    (r.took a v).took b w = r.took (a ++ b) (v ++ w) := by
  simp [took, Nat.add_assoc]

theorem step_ordinary {r : Reader} (hbare : r.mode = .bare) {c : Char} (hc : Ordinary c) :
    r.step c = r.took [c] [c] := by
  obtain ⟨hgap, hslash, hquote⟩ := hc
  simp only [isQuote, Bool.or_eq_false_iff, beq_eq_false_iff_ne] at hquote
  simp only [step, hbare, bareStep, if_neg hgap, if_neg hslash, if_neg hquote.1, if_neg hquote.2]
  simp [move, took, hbare]

theorem run_backslash {r : Reader} (hbare : r.mode = .bare) (c : Char) :
    r.run ['\\', c] = r.took ['\\', c] [c] := by
  simp [step, hbare, bareStep, move, took]

theorem step_separator {r : Reader} (hbare : r.mode = .bare) {c : Char} (hc : Separates c) :
    r.step c = r.closed.move .gap [] := by
  rw [step, hbare]
  exact if_pos hc

/-- A separator outside quotes ends the word under way for good. -/
theorem words_run_separator {r : Reader} (hbare : r.mode = .bare) {c : Char} (hc : Separates c)
    (text : Text) : (r.run (c :: text)).words ≠ r.words := by
  intro hsame
  have hprefix := words_prefix_run (r.closed.move .gap []) text
  rw [run_cons, step_separator hbare hc] at hsame
  rw [hsame] at hprefix
  have hlength := hprefix.length_le
  simp only [closed, move, List.length_append, List.length_singleton] at hlength
  omega

/-! ## What every run keeps -/

/-- Between words there is no value, and each word has one start, the one under way included. -/
structure Consistent (r : Reader) : Prop where
  value_gap : r.mode = .gap → r.value = []
  count : r.starts.length = r.words.length + if r.mode = .gap then 0 else 1

theorem consistent_start : start.Consistent := ⟨fun _ => rfl, rfl⟩

theorem Consistent.step {r : Reader} (h : r.Consistent) (c : Char) : (r.step c).Consistent := by
  have hcount := h.count
  rcases step_cases r c with
    ⟨hmode, -, heq⟩ | ⟨hmode, -, mode, value, hne, heq⟩ | ⟨hmode, -, heq⟩ |
      ⟨hmode, mode, value, hne, heq⟩
  · rw [heq]
    exact ⟨fun _ => h.value_gap hmode, by simpa [hmode, move] using hcount⟩
  · rw [heq]
    exact ⟨fun hgap => absurd hgap hne, by simpa [hmode, hne, move, opened] using hcount⟩
  · rw [heq]
    exact ⟨fun _ => rfl, by simpa [hmode, move, closed] using hcount⟩
  · rw [heq]
    exact ⟨fun hgap => absurd hgap hne, by simpa [hmode, hne, move] using hcount⟩

theorem Consistent.run {r : Reader} (h : r.Consistent) (text : Text) : (r.run text).Consistent := by
  induction text generalizing r with
  | nil => exact h
  | cons c rest ih => exact ih (h.step c)

theorem consistent_run (text : Text) : (start.run text).Consistent := consistent_start.run text

/-- Between words a reader is as good as a fresh one behind it. -/
theorem behind_start {r : Reader} (h : r.Consistent) (hgap : r.mode = .gap) :
    r.behind start = r := by
  have hvalue := h.value_gap hgap
  cases r
  simp_all [behind, start]

theorem length_allWords {r : Reader} (h : r.Consistent) : r.allWords.length = r.starts.length := by
  have hcount := h.count
  cases r with
  | mk offset words starts value mode => cases mode <;> simp_all [allWords]

/-- There are words exactly where one has begun. -/
theorem allWords_eq_nil_iff {r : Reader} (h : r.Consistent) :
    r.allWords = [] ↔ r.starts = [] := by
  rw [← List.length_eq_zero_iff, length_allWords h, List.length_eq_zero_iff]

theorem gap_of_starts_nil {r : Reader} (h : r.Consistent) (hnil : r.starts = []) :
    r.mode = .gap := by
  have hcount := h.count
  by_contra hmode
  simp [hnil, hmode] at hcount

end Reader

/-! ## Texts that end between words -/

open Reader

/-- A text that ends between words: what follows it is read on its own. -/
def EndsInGap (text : Text) : Prop := (start.run text).mode = .gap

theorem endsInGap_separator {c : Char} (hc : Separates c) : EndsInGap [c] := by
  show (start.step c).mode = .gap
  simp only [step, start, if_pos hc, move]

theorem run_append_of_gap {a : Text} (ha : EndsInGap a) (b : Text) :
    start.run (a ++ b) = (start.run a).behind (start.run b) := by
  rw [run_append, ← run_behind, behind_start (consistent_run a) ha]

/-- Words of a text that ends between words, then words of the rest. -/
theorem tokenize_append {a : Text} (ha : EndsInGap a) (b : Text) :
    tokenize (a ++ b) =
      { words := (tokenize a).words ++ (tokenize b).words
        starts := (tokenize a).starts ++ (tokenize b).starts.map (a.length + ·)
        quote := (tokenize b).quote } := by
  have hwords : (start.run a).words = (tokenize a).words := by
    simp only [tokenize, allWords, show (start.run a).mode = .gap from ha]
  have hoffset : (start.run a).offset = a.length := by
    rw [offset_run]
    simp [start]
  simp only [tokenize, run_append_of_gap ha, allWords_behind, hwords]
  simp only [behind, hoffset]
  rfl

theorem length_words_tokenize (text : Text) :
    (tokenize text).words.length = (tokenize text).starts.length :=
  length_allWords (consistent_run text)

end PaneCompletion.Token
