import Mathlib.Data.List.Induction
import PaneCompletion.Proofs.Line.Reader

/-!
# Words read apart

A word begins where the reader stands between words, so a text can be cut at the beginning of any of
its words. In front of the cut are the words before that one, and no quote is open there
(`Token.tokenize_take`); from the cut on are the others, with the quote that the text leaves open
(`Token.tokenize_drop`). `tokenize_cut` says both of every word, and that the words begin one behind
the other.

1. where words begin;
2. cutting at a word;
3. every word of a line.
-/

namespace PaneCompletion

namespace Token

open Reader

/-! ## Where words begin -/

/-- The beginnings of words come in order, and all have been read. -/
structure Reader.Increasing (r : Reader) : Prop where
  pairwise : r.starts.Pairwise (· < ·)
  lt_offset : ∀ start ∈ r.starts, start < r.offset

theorem Reader.increasing_start : start.Increasing := ⟨List.Pairwise.nil, by simp [start]⟩

theorem Reader.Increasing.step {r : Reader} (h : r.Increasing) (c : Char) :
    (r.step c).Increasing := by
  have hlater : ∀ start ∈ r.starts, start < r.offset + 1 := by
    intro start hmem
    have hlt := h.lt_offset start hmem
    omega
  constructor
  · rw [starts_step]
    split_ifs
    · rw [List.pairwise_append]
      refine ⟨h.pairwise, List.pairwise_singleton _ _, ?_⟩
      intro start hmem next hnext
      rw [List.mem_singleton.mp hnext]
      exact h.lt_offset start hmem
    · exact h.pairwise
  · intro start hmem
    rw [offset_step]
    rw [starts_step] at hmem
    split_ifs at hmem
    · obtain hmem | hmem := List.mem_append.mp hmem
      · exact hlater start hmem
      · rw [List.mem_singleton.mp hmem]
        omega
    · exact hlater start hmem

theorem Reader.Increasing.run {r : Reader} (h : r.Increasing) (text : Text) :
    (r.run text).Increasing := by
  induction text generalizing r with
  | nil => exact h
  | cons c rest ih => exact ih (h.step c)

theorem start_lt_length {text : Text} {start : Nat} (h : start ∈ (tokenize text).starts) :
    start < text.length := by
  have hlt := (increasing_start.run text).lt_offset start h
  rw [offset_run] at hlt
  simpa [Reader.start] using hlt

/-! ## Cutting at a word -/

/-- A text cut at the beginning of a word ends between words, and those before that one begin in
it. -/
theorem endsInGap_take {text : Text} {k cut : Nat} (h : (tokenize text).starts[k]? = some cut) :
    EndsInGap (text.take cut) ∧
      (tokenize (text.take cut)).starts = (tokenize text).starts.take k := by
  induction text using List.reverseRecOn with
  | nil => simp [tokenize, start] at h
  | append_singleton text c ih =>
    have hstarts : (tokenize (text ++ [c])).starts =
        if (start.run text).mode = .gap ∧ ¬Separates c then
          (tokenize text).starts ++ [text.length] else (tokenize text).starts := by
      have hoffset : (start.run text).offset = text.length := by simp [offset_run, start]
      show (start.run (text ++ [c])).starts = _
      rw [run_append, run_cons, run_nil, starts_step, hoffset]
      rfl
    -- a word that began before `c` began in front of it
    have hold : ∀ before : (tokenize text).starts[k]? = some cut,
        EndsInGap ((text ++ [c]).take cut) ∧
          (tokenize ((text ++ [c]).take cut)).starts = (tokenize text).starts.take k := by
      intro before
      have hlt := start_lt_length (List.mem_of_getElem? before)
      rw [List.take_append_of_le_length (Nat.le_of_lt hlt)]
      exact ih before
    rw [hstarts] at h ⊢
    split_ifs at h ⊢ with hopens
    · obtain hk | hk := Nat.lt_or_ge k (tokenize text).starts.length
      · rw [List.getElem?_append_left hk] at h
        rw [List.take_append_of_le_length (Nat.le_of_lt hk)]
        exact hold h
      · rw [List.getElem?_append_right hk, List.getElem?_singleton] at h
        split_ifs at h with hlast
        obtain rfl : text.length = cut := Option.some.inj h
        have hk' : k = (tokenize text).starts.length := by omega
        rw [List.take_left, hk', List.take_left]
        exact ⟨hopens.1, rfl⟩
    · exact hold h

section Cut

variable {text : Text} {k cut : Nat} (h : (tokenize text).starts[k]? = some cut)
include h

/-- As many words stand in front of a word as begin there. -/
theorem length_take : (tokenize (text.take cut)).words.length = k ∧
    (tokenize (text.take cut)).starts.length = k := by
  have hk := (List.getElem?_eq_some_iff.mp h).1
  rw [length_words_tokenize, (endsInGap_take h).2, List.length_take_of_le (Nat.le_of_lt hk)]
  exact ⟨rfl, rfl⟩

theorem tokenize_parts :
    tokenize text =
      { words := (tokenize (text.take cut)).words ++ (tokenize (text.drop cut)).words
        starts := (tokenize (text.take cut)).starts ++
          (tokenize (text.drop cut)).starts.map (cut + ·)
        quote := (tokenize (text.drop cut)).quote } := by
  have hlt := start_lt_length (List.mem_of_getElem? h)
  have hparts := tokenize_append (endsInGap_take h).1 (text.drop cut)
  rwa [List.take_append_drop, List.length_take_of_le (Nat.le_of_lt hlt)] at hparts

/-- In front of a word are the words before it. -/
theorem tokenize_take :
    tokenize (text.take cut) =
      ⟨(tokenize text).words.take k, (tokenize text).starts.take k, none⟩ := by
  obtain ⟨hwords, hstarts⟩ := length_take h
  have hquote : (tokenize (text.take cut)).quote = none := by
    show (start.run (text.take cut)).openQuote = none
    rw [openQuote, (endsInGap_take h).1]
  rw [tokenize_parts h, List.take_left' hwords, List.take_left' hstarts, ← hquote]

/-- From the beginning of a word on are that word and the words behind it. -/
theorem tokenize_drop :
    tokenize (text.drop cut) =
      ⟨(tokenize text).words.drop k, ((tokenize text).starts.drop k).map (· - cut),
        (tokenize text).quote⟩ := by
  obtain ⟨hwords, hstarts⟩ := length_take h
  have hback : ((tokenize (text.drop cut)).starts.map (cut + ·)).map (· - cut) =
      (tokenize (text.drop cut)).starts := by simp [Function.comp_def]
  rw [tokenize_parts h]
  simp only [List.drop_left' hwords, List.drop_left' hstarts, hback]

end Cut

/-- In front of its last word a text can be cut in two: the first part ends between words, and the
second is that word, from its first character on, with what separators follow it. -/
theorem exists_last_word (text : Text) (hword : (tokenize text).starts ≠ []) :
    ∃ a b, text = a ++ b ∧ EndsInGap a ∧ (tokenize b).starts = [0] := by
  obtain ⟨front, cut, hstarts⟩ : ∃ front cut, (tokenize text).starts = front ++ [cut] :=
    ⟨_, _, (List.dropLast_concat_getLast hword).symm⟩
  have hlast : (tokenize text).starts[front.length]? = some cut := by simp [hstarts]
  refine ⟨text.take cut, text.drop cut, (List.take_append_drop cut text).symm,
    (endsInGap_take hlast).1, ?_⟩
  rw [tokenize_drop hlast, hstarts, List.drop_left]
  simp

end Token

/-! ## Every word of a line -/

/-- A line has a beginning for each of its words, one behind the other, and at each of these it can
be cut: its parts have the words that the line has in front of the cut and from there on. -/
theorem tokenize_cut (text : Text) :
    let tokens := tokenize text
    tokens.words.length = tokens.starts.length ∧ tokens.starts.Pairwise (· < ·) ∧
      ∀ k cut, tokens.starts[k]? = some cut →
        tokenize (text.take cut) = ⟨tokens.words.take k, tokens.starts.take k, none⟩ ∧
        tokenize (text.drop cut) =
          ⟨tokens.words.drop k, (tokens.starts.drop k).map (· - cut), tokens.quote⟩ := by
  intro tokens
  refine ⟨Token.length_words_tokenize text, (Token.Reader.increasing_start.run text).pairwise, ?_⟩
  intro k cut hcut
  exact ⟨Token.tokenize_take hcut, Token.tokenize_drop hcut⟩

theorem tokenize_cut_quoted :
    tokenize "a 'b ''c' \"d".toList =
        ⟨["a".toList, "b 'c".toList, "d".toList], [0, 2, 10], some .double⟩ ∧
      tokenize "a ".toList = ⟨["a".toList], [0], none⟩ ∧
      tokenize "'b ''c' \"d".toList = ⟨["b 'c".toList, "d".toList], [0, 8], some .double⟩ := by
  have hwhole : tokenize "a 'b ''c' \"d".toList =
      ⟨["a".toList, "b 'c".toList, "d".toList], [0, 2, 10], some .double⟩ := by decide
  obtain ⟨-, -, hparts⟩ := tokenize_cut "a 'b ''c' \"d".toList
  obtain ⟨hfront, hback⟩ := hparts 1 2 (by rw [hwhole]; rfl)
  rw [hwhole] at hfront hback
  exact ⟨hwhole, hfront, hback⟩

end PaneCompletion
