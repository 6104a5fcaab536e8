import Mathlib.Algebra.Ring.Parity
import Mathlib.Data.List.Induction
import PaneCompletion.Proofs.Line.Request
import PaneCompletion.Proofs.Text.Parts

/-!
# The argument under the cursor

Where the argument begins that is being completed is decided by two scans that know nothing of each
other: the word reader has the beginnings of the words, and `Token.endsInSpace` tells whether the
last of them is over. The second knows backslashes, but neither quotes nor tabs.

On backslashes the two agree. Both are compared with `takesNext`, which reads a text from the left
as the scan does and, unlike the scan, says what one more character changes: `endsInSpace` asks it
about all but the last character, and outside single quotes the reader is behind a backslash exactly
where it holds (`Reader.escapes_run_iff`). What is left are two kinds of lines, those that end in a
tab behind a word and those that end in a space inside an open quote, and there the position is the
wrong one of the two (`position_beginsArgument_iff`).

1. backslashes at the end;
2. the end of a line;
3. where the argument begins.
-/

namespace PaneCompletion

open Token Token.Reader

namespace Token

/-! ## Backslashes at the end -/

/-- How many backslashes stand at the end of a text. -/
def backslashes (text : Text) : Nat := (Text.takeEnd (· = '\\') text).length

/-- Whether a text ends in a backslash that takes the next character, where each backslash that is
not taken itself takes one. -/
def takesNext (text : Text) : Bool := text.foldl (fun waiting c => !waiting && c == '\\') false

theorem backslashes_append_singleton (front : Text) (c : Char) :
    backslashes (front ++ [c]) = if c = '\\' then backslashes front + 1 else 0 := by
  by_cases hc : c = '\\' <;> simp [backslashes, Text.takeEnd, hc]

theorem takesNext_append_singleton (front : Text) (c : Char) :
    takesNext (front ++ [c]) = (!takesNext front && c == '\\') := by
  simp [takesNext, List.foldl_append]

theorem takesNext_iff_odd (text : Text) : takesNext text = true ↔ Odd (backslashes text) := by
  induction text using List.reverseRecOn with
  | nil => simp [takesNext, backslashes, Text.takeEnd]
  | append_singleton front c ih =>
    rw [takesNext_append_singleton, backslashes_append_singleton]
    by_cases hc : c = '\\'
    · rw [if_pos hc, Nat.odd_add_one, ← ih]
      simp [hc]
    · simp [hc]

theorem takesNext_eq_false_iff_even (text : Text) :
    takesNext text = false ↔ Even (backslashes text) := by
  rw [← Nat.not_odd_iff_even, ← takesNext_iff_odd, Bool.not_eq_true]

/-- The scan from the left stops at the last character unless a backslash takes it. -/
theorem endsInSpace_append_singleton : ∀ (front : Text) (c : Char),
    endsInSpace (front ++ [c]) = (!takesNext front && c == ' ')
  | [], c => by simp [endsInSpace, takesNext]
  | [d], c => by by_cases hd : d = '\\' <;> simp [endsInSpace, takesNext, hd]
  | d :: e :: front, c => by
    simp only [List.cons_append, endsInSpace]
    split_ifs with hd
    · rw [endsInSpace_append_singleton front c]
      simp [takesNext, hd]
    · rw [← List.cons_append, endsInSpace_append_singleton (e :: front) c]
      simp [takesNext, beq_false_of_ne hd]

/-- The modes behind a backslash that takes the next character. -/
def Mode.escapes : Mode → Bool
  | .bareEscape | .doubleEscape => true
  | _ => false

/-- Into single quotes and inside them backslashes mean nothing. Elsewhere, as for the scan, one
takes the next character unless it is taken itself. -/
theorem Reader.escapes_step {r : Reader} {c : Char} (hbefore : r.mode ≠ .single)
    (hafter : (r.step c).mode ≠ .single) :
    (r.step c).mode.escapes = (!r.mode.escapes && c == '\\') := by
  cases r with
  | mk offset words starts value mode =>
    cases mode <;> simp only [step, bareStep, move] at hafter ⊢ <;> (try split_ifs at hafter ⊢) <;>
      simp_all [Mode.escapes]
    all_goals (rintro rfl; simp_all)

/-- Outside single quotes the reader and the scan see the same backslashes. -/
theorem Reader.escapes_run {front : Text} (hmode : (start.run front).mode ≠ .single) :
    (start.run front).mode.escapes = takesNext front := by
  induction front using List.reverseRecOn with
  | nil => rfl
  | append_singleton front c ih =>
    rw [run_append, run_cons, run_nil] at hmode ⊢
    rw [takesNext_append_singleton]
    by_cases hbefore : (start.run front).mode = .single
    · -- only the quote that closes leaves single quotes, and it is no backslash
      simp only [step, hbefore] at hmode ⊢
      split_ifs at hmode ⊢ with hc
      · simp [hc, Mode.escapes, move]
      · exact absurd rfl hmode
    · rw [escapes_step hbefore hmode, ih hbefore]

theorem endsInSpace_iff (line : Text) :
    endsInSpace line = true ↔ ∃ front, line = front ++ [' '] ∧ Even (backslashes front) := by
  induction line using List.reverseRecOn with
  | nil => simp [endsInSpace]
  | append_singleton front c _ =>
    rw [endsInSpace_append_singleton]
    simp [← takesNext_eq_false_iff_even, and_comm]

theorem backslashes_append_replicate {front : Text} (h : front.getLast? ≠ some '\\') (n : Nat) :
    backslashes (front ++ List.replicate n '\\') = n := by
  have hfront : ∀ c ∈ front.getLast?, decide (c = '\\') = false :=
    fun c hc => decide_eq_false fun heq => h (heq ▸ hc)
  have hrun : ∀ c ∈ List.replicate n '\\', decide (c = '\\') = true :=
    fun c hc => decide_eq_true (List.eq_of_mem_replicate hc)
  rw [backslashes, Text.takeEnd_append hfront hrun, List.length_replicate]

/-- The scan from the left finds a space at the end exactly if the run of backslashes in front of
it, which goes as far to the left as it can, has even length. -/
theorem endsInSpace_iff_even_run (text : Text) :
    endsInSpace text = true ↔ ∃ front n, text = front ++ List.replicate n '\\' ++ [' '] ∧
      front.getLast? ≠ some '\\' ∧ Even n := by
  rw [endsInSpace_iff]
  constructor
  · rintro ⟨before, rfl, heven⟩
    obtain ⟨front, run, rfl, hfront, hrun⟩ := Text.exists_end_cut (· = '\\') before
    have hlast : front.getLast? ≠ some '\\' :=
      fun hlast => of_decide_eq_false (hfront _ hlast) rfl
    have hreplicate : run = List.replicate run.length '\\' :=
      List.eq_replicate_of_mem fun c hc => of_decide_eq_true (hrun c hc)
    rw [hreplicate, backslashes_append_replicate hlast] at heven
    exact ⟨front, run.length, by rw [← hreplicate], hlast, heven⟩
  · rintro ⟨front, n, rfl, hlast, heven⟩
    exact ⟨_, rfl, by rwa [backslashes_append_replicate hlast]⟩

/-! ## The end of a line -/

/-- A line ends in a separator: a space or a tab outside quotes that no backslash takes. -/
def EndsInSeparator (line : Text) : Prop :=
  ∃ front c, line = front ++ [c] ∧
    Separates c ∧ (tokenize front).quote = none ∧ Even (backslashes front)

/-- A line ends inside a word: a quote is open, or its last character is no separator. -/
def EndsInWord (line : Text) : Prop :=
  (tokenize line).quote ≠ none ∨ line ≠ [] ∧ ¬EndsInSeparator line

theorem Reader.step_mode_gap_iff (r : Reader) (c : Char) :
    (r.step c).mode = .gap ↔ Separates c ∧ r.openQuote = none ∧ r.mode.escapes = false := by
  cases r with
  | mk offset words starts value mode =>
    cases mode <;> simp only [step, bareStep, move, openQuote] <;> (try split_ifs) <;>
      simp_all [Mode.escapes]

/-- A separator neither opens a quote nor closes one. -/
theorem Reader.openQuote_step_separator {r : Reader} {c : Char} (hc : Separates c)
    (hopen : r.openQuote ≠ none) : (r.step c).openQuote = r.openQuote := by
  cases r with
  | mk offset words starts value mode =>
    rcases hc with rfl | rfl <;> cases mode <;> simp_all [step, move, openQuote]

theorem endsInGap_append_singleton (front : Text) (c : Char) :
    EndsInGap (front ++ [c]) ↔ EndsInSeparator (front ++ [c]) := by
  have hquote : (tokenize front).quote = (start.run front).openQuote := rfl
  have hescapes : (start.run front).openQuote = none →
      ((start.run front).mode.escapes = false ↔ Even (backslashes front)) := by
    intro hnone
    rw [escapes_run (fun hmode => by simp [openQuote, hmode] at hnone),
      takesNext_eq_false_iff_even]
  rw [EndsInGap, run_append, run_cons, run_nil, step_mode_gap_iff]
  constructor
  · rintro ⟨hc, hnone, hfree⟩
    exact ⟨front, c, rfl, hc, hnone, (hescapes hnone).mp hfree⟩
  · rintro ⟨front', c', heq, hc, hnone, heven⟩
    obtain ⟨rfl, rfl⟩ := List.append_singleton_inj.mp heq
    exact ⟨hc, hnone, (hescapes hnone).mpr heven⟩

theorem endsInWord_iff_not_endsInGap (line : Text) : EndsInWord line ↔ ¬EndsInGap line := by
  have hquote : EndsInGap line → (tokenize line).quote = none := by
    intro hgap
    show (start.run line).openQuote = none
    rw [openQuote, hgap]
  induction line using List.reverseRecOn with
  | nil => simp [EndsInWord, EndsInGap, tokenize, start, openQuote]
  | append_singleton front c _ =>
    rw [endsInGap_append_singleton] at hquote ⊢
    constructor
    · rintro (hopen | ⟨-, hword⟩)
      · exact fun hseparator => hopen (hquote hseparator)
      · exact hword
    · exact fun hword => .inr ⟨by simp, hword⟩

instance (line : Text) : Decidable (EndsInWord line) :=
  have : Decidable (EndsInGap line) := inferInstanceAs (Decidable (_ = _))
  decidable_of_iff _ (endsInWord_iff_not_endsInGap line).symm

end Token

/-! ## Where the argument begins -/

/-- A position is where the argument under the cursor begins: the word that the line ends in, or an
argument that is still empty at the end of the line. -/
def BeginsArgument (line : Text) (position : Int) : Prop :=
  (EndsInWord line → ∃ start : Nat, (tokenize line).starts.getLast? = some start ∧
    position = start) ∧
  (¬EndsInWord line → position = line.length)

/-- A line that ends in a tab behind a word. -/
def TabBehindWord (line : Text) : Prop :=
  (∃ front, line = front ++ ['\t']) ∧ ¬EndsInWord line ∧ (tokenize line).words ≠ []

/-- A line that ends in a space inside an open quote, where no backslash takes the space. -/
def SpaceInQuote (line : Text) : Prop :=
  (∃ front, line = front ++ [' '] ∧ Even (backslashes front)) ∧ (tokenize line).quote ≠ none

section ArgumentStart

variable {line : Text}

theorem exists_start (hwords : (tokenize line).words ≠ []) :
    ∃ start : Nat, (tokenize line).starts.getLast? = some start ∧ start < line.length := by
  have hnone : (tokenize line).starts ≠ [] :=
    fun hnil => hwords ((allWords_eq_nil_iff (consistent_run line)).mpr hnil)
  refine ⟨_, List.getLast?_eq_some_getLast hnone, ?_⟩
  exact start_lt_length (List.getLast_mem hnone)

theorem words_of_endsInWord (hword : EndsInWord line) : (tokenize line).words ≠ [] := by
  intro hnil
  have hnone := (allWords_eq_nil_iff (consistent_run line)).mp hnil
  exact (endsInWord_iff_not_endsInGap line).mp hword
    (gap_of_starts_nil (consistent_run line) hnone)

/-- Behind a tab the word in front of it is still taken for the argument. -/
theorem argumentStart_of_tab (htab : TabBehindWord line) :
    (tokenize line).starts.getLast? = some (argumentStart line) := by
  obtain ⟨⟨front, rfl⟩, -, hwords⟩ := htab
  obtain ⟨start, hstart, -⟩ := exists_start hwords
  have hspace : endsInSpace (front ++ ['\t']) = false := by
    simp [endsInSpace_append_singleton]
  rw [argumentStart_of_word hspace hstart, hstart]

/-- Behind a space in a quote the argument is taken for a new one. -/
theorem argumentStart_of_space_in_quote (hquoted : SpaceInQuote line) :
    argumentStart line = line.length :=
  argumentStart_of_space ((endsInSpace_iff line).mpr hquoted.1)

/-- Where a space ends the line but not the word, the space stands inside a quote. -/
theorem spaceInQuote_of_endsInSpace (hword : EndsInWord line) (hspace : endsInSpace line = true) :
    SpaceInQuote line := by
  obtain ⟨front, rfl, heven⟩ := (endsInSpace_iff line).mp hspace
  refine ⟨⟨front, rfl, heven⟩, ?_⟩
  rcases hword with hopen | ⟨-, hword⟩
  · exact hopen
  · have hopen : (start.run front).openQuote ≠ none :=
      fun hnone => hword ⟨front, ' ', rfl, .inl rfl, hnone, heven⟩
    show (start.run (front ++ [' '])).openQuote ≠ none
    rwa [run_append, run_cons, run_nil, openQuote_step_separator (.inl rfl) hopen]

/-- Where no space ends the line behind its words, a tab does. -/
theorem tabBehindWord_of_not_endsInSpace (hword : ¬EndsInWord line)
    (hspace : endsInSpace line = false) (hwords : (tokenize line).words ≠ []) :
    TabBehindWord line := by
  refine ⟨?_, hword, hwords⟩
  have hnonempty : line ≠ [] := by
    rintro rfl
    exact hwords rfl
  have hseparator : EndsInSeparator line := by
    by_contra hnone
    exact hword (.inr ⟨hnonempty, hnone⟩)
  obtain ⟨front, c, rfl, rfl | rfl, -, heven⟩ := hseparator
  · rw [(endsInSpace_iff _).mpr ⟨front, rfl, heven⟩] at hspace
    exact absurd hspace (by decide)
  · exact ⟨front, rfl⟩

/-- The position is right except where the scan takes a tab for no separator, or a space in a quote
for one. -/
theorem beginsArgument_argumentStart_iff :
    BeginsArgument line (argumentStart line) ↔ ¬TabBehindWord line ∧ ¬SpaceInQuote line := by
  constructor
  · rintro ⟨hinside, hbehind⟩
    constructor
    · intro htab
      obtain ⟨start, hstart, hlt⟩ := exists_start htab.2.2
      have hposition := hbehind htab.2.1
      rw [argumentStart_of_tab htab] at hstart
      obtain rfl := Option.some.inj hstart
      omega
    · intro hquoted
      have hword : EndsInWord line := .inl hquoted.2
      obtain ⟨start, hstart, heq⟩ := hinside hword
      have hlt := start_lt_length (List.mem_of_getLast? hstart)
      rw [argumentStart_of_space_in_quote hquoted] at heq
      omega
  · rintro ⟨htab, hquoted⟩
    constructor
    · intro hword
      obtain ⟨start, hstart, -⟩ := exists_start (words_of_endsInWord hword)
      have hspace : endsInSpace line = false := by
        rw [← Bool.not_eq_true]
        exact fun hspace => hquoted (spaceInQuote_of_endsInSpace hword hspace)
      exact ⟨start, hstart, by rw [argumentStart_of_word hspace hstart]⟩
    · intro hword
      cases hspace : endsInSpace line with
      | true => rw [argumentStart_of_space hspace]
      | false =>
        have hnone : (tokenize line).words = [] := by
          by_contra hwords
          exact htab (tabBehindWord_of_not_endsInSpace hword hspace hwords)
        rw [argumentStart_of_no_word ((allWords_eq_nil_iff (consistent_run line)).mp hnone)]

end ArgumentStart

/-- The position that a command line asks for is where the argument under the cursor begins, except
in two kinds of lines. Behind a tab it is the beginning of the last word, which is over, and behind
a space in an open quote it is the end of the line, where no word begins. -/
theorem position_beginsArgument_iff (text : Text) :
    let request := (parseLine text).2
    (BeginsArgument request.line request.position ↔
      ¬TabBehindWord request.line ∧ ¬SpaceInQuote request.line) ∧
    (TabBehindWord request.line → ∃ start : Nat,
      (tokenize request.line).starts.getLast? = some start ∧ request.position = start) ∧
    (SpaceInQuote request.line → request.position = request.line.length) := by
  rw [parseLine_eq]
  refine ⟨beginsArgument_argumentStart_iff, ?_, ?_⟩
  · exact fun htab => ⟨_, argumentStart_of_tab htab, rfl⟩
  · exact fun hquoted => congrArg Nat.cast (argumentStart_of_space_in_quote hquoted)

/-- `edit a`, `edit a` with a tab behind it, and `edit 'a` with a space behind it. -/
theorem position_beginsArgument_iff_tab_space :
    BeginsArgument "a".toList 0 ∧
      (¬EndsInWord "a\t".toList ∧ (parseLine "edit a\t".toList).2.position = 0) ∧
      (EndsInWord "'a ".toList ∧ (parseLine "edit 'a ".toList).2.position = 3) := by
  have htab : TabBehindWord "a\t".toList :=
    ⟨⟨"a".toList, rfl⟩, by decide, by decide⟩
  have hquoted : SpaceInQuote "'a ".toList := ⟨⟨"'a".toList, rfl, 0, rfl⟩, by decide⟩
  have hplain : ¬TabBehindWord "a".toList ∧ ¬SpaceInQuote "a".toList := by
    refine ⟨?_, fun h => h.2 (by decide)⟩
    rintro ⟨⟨front, hline⟩, -⟩
    have hlast := congrArg List.getLast? hline
    simp at hlast
  obtain ⟨start, hstart, hposition⟩ := (position_beginsArgument_iff "edit a\t".toList).2.1 htab
  refine ⟨(position_beginsArgument_iff "edit a".toList).1.mpr hplain, ⟨htab.2.1, ?_⟩,
    .inl hquoted.2, (position_beginsArgument_iff "edit 'a ".toList).2.2 hquoted⟩
  obtain rfl : 0 = start := Option.some.inj hstart
  exact hposition

/-- Behind `edit a` and a tab the argument that is completed is the empty one at the end of the
line; the position is still that of `a`. -/
theorem not_position_beginsArgument :
    ¬∀ text, BeginsArgument (parseLine text).2.line (parseLine text).2.position := by
  intro h
  have hposition : (0 : Int) = 2 := (h "edit a\t".toList).2 (by decide)
  exact absurd hposition (by decide)

end PaneCompletion
