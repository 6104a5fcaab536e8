import PaneCompletion.Proofs.Line.Escape

/-!
# Lines without quotes

Where a line has no quotes in it, three readings of it agree that are made apart from each other:
the word reader's, the test for a space at the end, and the search for the last slash. The reader is
then always outside quotes (`Outside`), so a space at the end is a gap (`endsInGap_of_endsInSpace`),
a slash is a character of the word under way, and the value of that word is its text unescaped
(`allWords_run_unescape`).

`words_splice_unquoted` puts them together: a written name in place of the line from the splice
offset on changes the last word alone, to what was typed in front of the offset and the name.

1. outside quotes;
2. the value of a word;
3. a space at the end;
4. the word that is cut at its last slash;
5. a name in place of the end of a line.
-/

namespace PaneCompletion

open Token Token.Reader

/-- No quotes in a text. -/
def Unquoted (text : Text) : Prop := ∀ c ∈ text, isQuote c = false

instance (text : Text) : Decidable (Unquoted text) :=
  List.decidableBAll (isQuote · = false) text

theorem Unquoted.of_append {a b : Text} (h : Unquoted (a ++ b)) : Unquoted a ∧ Unquoted b :=
  ⟨fun c hc => h c (List.mem_append_left _ hc), fun c hc => h c (List.mem_append_right _ hc)⟩

theorem Unquoted.of_cons {c : Char} {text : Text} (h : Unquoted (c :: text)) :
    isQuote c = false ∧ Unquoted text :=
  ⟨h c (by simp), fun d hd => h d (by simp [hd])⟩

namespace Token

/-! ## Outside quotes -/

namespace Reader

/-- A reader that is outside quotes. -/
def Outside (r : Reader) : Prop := r.mode = .gap ∨ r.mode = .bare ∨ r.mode = .bareEscape

/-- Outside quotes a character without a meaning belongs to a word. -/
theorem Outside.mode_step_ordinary {r : Reader} (h : r.Outside) {c : Char} (hc : Ordinary c) :
    (r.step c).mode = .bare := by
  rcases h with hmode | hmode | hmode
  · have hopened := run_eq_opened hmode hc.1 []
    simp only [run_cons, run_nil] at hopened
    rw [hopened, step_ordinary rfl hc]
    rfl
  · rw [step_ordinary hmode hc]
    exact hmode
  · simp only [step, hmode]
    rfl

theorem Outside.step {r : Reader} (h : r.Outside) {c : Char} (hc : isQuote c = false) :
    (r.step c).Outside := by
  simp only [isQuote, Bool.or_eq_false_iff, beq_eq_false_iff_ne] at hc
  rcases h with hmode | hmode | hmode <;>
    simp only [Outside, Reader.step, bareStep, hmode, move, if_neg hc.1, if_neg hc.2] <;>
    (try split_ifs) <;> simp

theorem Outside.run {r : Reader} (h : r.Outside) {text : Text} (htext : Unquoted text) :
    (r.run text).Outside := by
  induction text generalizing r with
  | nil => exact h
  | cons c rest ih =>
    obtain ⟨hc, hrest⟩ := htext.of_cons
    exact ih (h.step hc) hrest

end Reader

/-! ## The value of a word -/

/-- What a text outside quotes stands for: a backslash takes the next character as it is, and at the
end stands for itself. -/
def unescape : Text → Text
  | [] => []
  | [c] => [c]
  | c :: d :: rest => if c = '\\' then d :: unescape rest else c :: unescape (d :: rest)

/-- A character without quotes, in a word that it does not end, is a backslash or ordinary. -/
theorem eq_backslash_or_ordinary {r : Reader} (hbare : r.mode = .bare) {c : Char} {text : Text}
    (hc : isQuote c = false) (hwords : (r.run (c :: text)).words = r.words) :
    c = '\\' ∨ Ordinary c := by
  by_cases hslash : c = '\\'
  · exact .inl hslash
  · exact .inr ⟨fun hgap => words_run_separator hbare hgap text hwords, hslash, hc⟩

/-- A text that ends no word takes the word under way on by its value. -/
theorem allWords_run_unescape {text : Text} (htext : Unquoted text) {r : Reader}
    (hbare : r.mode = .bare) (hwords : (r.run text).words = r.words) :
    (r.run text).allWords = r.words ++ [r.value ++ unescape text] := by
  induction text using unescape.induct generalizing r with
  | case1 => simp [allWords, hbare, unescape]
  | case2 c =>
    rcases eq_backslash_or_ordinary hbare htext.of_cons.1 hwords with rfl | hc
    · simp [step, hbare, bareStep, move, allWords, unescape]
    · rw [run_cons, step_ordinary hbare hc]
      simp [took, allWords, hbare, unescape]
  | case3 d rest ih =>
    have hrun : r.run ('\\' :: d :: rest) = (r.took ['\\', d] [d]).run rest := by
      rw [← run_backslash hbare, ← run_append]
      rfl
    have hrest : Unquoted rest := htext.of_cons.2.of_cons.2
    rw [hrun] at hwords ⊢
    rw [ih (r := r.took ['\\', d] [d]) hrest hbare hwords, unescape, if_pos rfl]
    simp [took]
  | case4 c d rest hslash ih =>
    have hc := (eq_backslash_or_ordinary hbare htext.of_cons.1 hwords).resolve_left hslash
    rw [run_cons, step_ordinary hbare hc] at hwords ⊢
    rw [ih (r := r.took [c] [c]) htext.of_cons.2 hbare hwords, unescape, if_neg hslash]
    simp [took]

/-! ## A space at the end -/

/-- Without quotes, a space that no backslash takes as it is stands in a gap. -/
theorem mode_run_of_endsInSpace {text : Text} (htext : Unquoted text) {r : Reader}
    (hmode : r.mode = .gap ∨ r.mode = .bare) (hspace : endsInSpace text = true) :
    (r.run text).mode = .gap := by
  induction text using endsInSpace.induct generalizing r with
  | case1 => simp [endsInSpace] at hspace
  | case2 c =>
    have hc : c = ' ' := by simpa [endsInSpace] using hspace
    subst hc
    rcases hmode with h | h <;> simp [step, h, bareStep, move]
  | case3 d rest ih =>
    have hbare : (r.run ['\\', d]).mode = .bare := by
      rcases hmode with h | h
      · rw [run_eq_opened h (by decide), run_backslash rfl]
        rfl
      · rw [run_backslash h]
        exact h
    rw [endsInSpace, if_pos rfl] at hspace
    exact ih htext.of_cons.2.of_cons.2 (.inr hbare) hspace
  | case4 c d rest hslash ih =>
    rw [endsInSpace, if_neg hslash] at hspace
    refine ih htext.of_cons.2 ?_ hspace
    by_cases hgap : Separates c
    · rcases hmode with h | h
      · left
        simp only [step, h, if_pos hgap, move]
      · left
        rw [step_separator h hgap]
        rfl
    · right
      have houtside : r.Outside := hmode.elim .inl (fun h => .inr (.inl h))
      exact houtside.mode_step_ordinary ⟨hgap, hslash, htext.of_cons.1⟩

theorem endsInGap_of_endsInSpace {text : Text} (htext : Unquoted text)
    (hspace : endsInSpace text = true) : EndsInGap text :=
  mode_run_of_endsInSpace htext (.inl rfl) hspace

/-! ## The word that is cut at its last slash -/

theorem not_separates_of_starts {c : Char} {text : Text}
    (hword : (tokenize (c :: text)).starts = [0]) : ¬Separates c := by
  intro hgap
  have hstarts := congrArg Tokens.starts (tokenize_append (endsInGap_separator hgap) text)
  have hnone : (tokenize [c]).starts = [] := by
    show (start.step c).starts = []
    rw [starts_step, if_neg (fun h => h.2 hgap)]
    rfl
  rw [List.singleton_append, hword, hnone, List.nil_append] at hstarts
  cases hmore : (tokenize text).starts with
  | nil => simp [hmore] at hstarts
  | cons s more =>
    simp only [hmore, List.map_cons, List.cons.injEq, List.length_singleton] at hstarts
    omega

theorem mode_run_slash {front : Text} (htext : Unquoted front) :
    (start.run (front ++ ['/'])).mode = .bare := by
  have houtside : (start.run front).Outside := Outside.run (.inl rfl) htext
  rw [run_append]
  exact houtside.mode_step_ordinary (c := '/') ⟨by decide, by decide, by decide⟩

/-- Inside the only word of a text no word has been read yet. -/
theorem words_run_eq_nil {a b : Text} (hword : (tokenize (a ++ b)).starts = [0])
    (hmode : (start.run a).mode = .bare) : (start.run a).words = [] := by
  have hstarts : (start.run a).starts <+: [0] := by
    rw [← hword]
    show _ <+: (start.run (a ++ b)).starts
    rw [run_append start a]
    exact starts_prefix_run _ _
  have hlength : (start.run a).starts.length ≤ 1 := hstarts.length_le
  have hcount := (consistent_run a).count
  rw [hmode, if_neg (by simp)] at hcount
  exact List.eq_nil_of_length_eq_zero (by omega)

/-- Up to a slash in it, the value of a word is what was typed, unescaped. -/
theorem value_run_to_slash {front rest : Text} (htext : Unquoted (front ++ ['/']))
    (hword : (tokenize (front ++ ['/'] ++ rest)).starts = [0]) :
    (start.run (front ++ ['/'])).value = unescape (front ++ ['/']) := by
  have hmode := mode_run_slash htext.of_append.1
  have hwords := words_run_eq_nil hword hmode
  obtain ⟨c, more, hcons⟩ := List.exists_cons_of_ne_nil (l := front ++ ['/']) (by simp)
  have hc : ¬Separates c := by
    rw [hcons, List.cons_append] at hword
    exact not_separates_of_starts hword
  have hopened : start.run (front ++ ['/']) = start.opened.run (front ++ ['/']) := by
    rw [hcons, run_eq_opened rfl hc]
  have hnone : (start.opened.run (front ++ ['/'])).words = start.opened.words := by
    rw [← hopened, hwords]
    rfl
  have hall := allWords_run_unescape htext (r := start.opened) rfl hnone
  rw [← hopened, allWords, hmode, hwords] at hall
  simpa [opened, start] using hall

/-! ## A name in place of the end of a line -/

theorem words_append_shell {line : Text} (hgap : EndsInGap line) {name : Text} (hname : name ≠ []) :
    (tokenize (line ++ Escape.shell name)).words =
      (tokenize line).words ++ [Escape.guarded name] := by
  rw [tokenize_append hgap, tokenize_shell hname]

/-- A written name behind the last slash of a word makes one word with what is in front. -/
theorem words_to_slash_append_shell {front rest : Text} (htext : Unquoted (front ++ '/' :: rest))
    (hword : (tokenize (front ++ '/' :: rest)).starts = [0]) (name : Text) :
    (tokenize (front ++ ['/'] ++ Escape.shell name)).words =
      [unescape (front ++ ['/']) ++ Escape.guarded name] := by
  rw [List.append_cons] at htext hword
  have hmode := mode_run_slash htext.of_append.1.of_append.1
  have hwords := words_run_eq_nil hword hmode
  have hvalue := value_run_to_slash htext.of_append.1 hword
  show (start.run (front ++ ['/'] ++ Escape.shell name)).allWords = _
  rw [run_append, run_shell hmode]
  simp [took, allWords, hmode, hwords, hvalue]

end Token

theorem Request.reading_ofLine_unquoted (command : Command) {line : Text} (hline : Unquoted line) :
    (Request.ofLine command line).reading = .plain := by
  refine readingOf_plain fun c hc => hline c ?_
  exact List.mem_of_mem_drop (List.mem_of_mem_head? hc)

/-- In a line without quotes either nothing is under way at the end, or the last word is, and then
it is the argument that is completed. -/
theorem Request.ofLine_cases (command : Command) {line : Text} (hline : Unquoted line) :
    (EndsInGap line ∧ argumentStart line = line.length ∧
      (Request.ofLine command line).inWord = false) ∨
    (∃ a b, line = a ++ b ∧ EndsInGap a ∧ (tokenize b).starts = [0] ∧
      argumentStart line = a.length ∧ (Request.ofLine command line).inWord = true) := by
  have hconsistent := consistent_run line
  by_cases hnone : (tokenize line).starts = []
  · refine .inl ⟨gap_of_starts_nil hconsistent hnone, argumentStart_of_no_word hnone, ?_⟩
    have hwords : (tokenize line).words = [] := (allWords_eq_nil_iff hconsistent).mpr hnone
    simp [inWord, wordCount, ofLine, hwords]
  · cases hspace : endsInSpace line with
    | true =>
      refine .inl ⟨endsInGap_of_endsInSpace hline hspace, argumentStart_of_space hspace, ?_⟩
      simp [inWord, ofLine, hspace]
    | false =>
      obtain ⟨a, b, rfl, ha, hb⟩ := exists_last_word line hnone
      refine .inr ⟨a, b, rfl, ha, hb, argumentStart_of_word hspace ?_, ?_⟩
      · rw [tokenize_append ha, hb]
        simp
      · have hwords : (tokenize (a ++ b)).words ≠ [] :=
          fun h => hnone ((allWords_eq_nil_iff hconsistent).mp h)
        simp [inWord, wordCount, ofLine, hspace, List.length_pos_iff.mpr hwords]

/-- In a line without quotes a written name in place of all from the splice offset on changes the
last argument alone: to the value of what was typed of it in front of the offset, and the name. -/
theorem words_splice_unquoted (command : Command) {line : Text} (hline : Unquoted line)
    {name : Text} (hname : name ≠ []) :
    ∃ cut : Nat, (Request.ofLine command line).pathStart = cut ∧ cut ≤ line.length ∧
      (tokenize (line.take cut ++ Escape.shell name)).words =
        (tokenize line).words.take (Request.ofLine command line).argumentNumber ++
          [unescape ((line.take cut).drop (argumentStart line)) ++ Escape.guarded name] := by
  have hplain := Request.reading_ofLine_unquoted command hline
  rcases Request.ofLine_cases command hline with
    ⟨hgap, hstart, hword⟩ | ⟨a, b, rfl, ha, hb, hstart, hword⟩
  · have hslash : (Request.ofLine command line).slash? = none := by
      rw [Request.slash?_ofLine, hstart]
      simp [Text.lastIndexFrom?, Text.lastIndex?]
    refine ⟨line.length, ?_, Nat.le_refl _, ?_⟩
    · rw [Request.pathStart, hslash, hplain, ← hstart]
      rfl
    · rw [List.take_length, words_append_shell hgap hname, hstart, List.drop_length,
        Request.argumentNumber, hword]
      simp [Request.wordCount, Request.ofLine, unescape]
  · have hone : (tokenize b).words.length = 1 := by rw [length_words_tokenize, hb]; rfl
    have htake : (tokenize (a ++ b)).words.take (Request.ofLine command (a ++ b)).argumentNumber =
        (tokenize a).words := by
      have hcount : (Request.ofLine command (a ++ b)).argumentNumber =
          (tokenize a).words.length := by
        rw [Request.argumentNumber, if_pos hword, Request.wordCount, Request.ofLine,
          tokenize_append ha, List.length_append, hone]
        rfl
      rw [hcount, tokenize_append ha]
      exact List.take_left
    have hslash := Request.slash?_ofLine_append command hstart
    rw [htake, hstart]
    cases hlast : Text.lastIndex? '/' b with
    | none =>
      refine ⟨a.length, ?_, by simp, ?_⟩
      · rw [Request.pathStart, hslash, hlast, hplain, ← hstart]
        rfl
      · rw [List.take_left, words_append_shell ha hname, List.drop_length]
        rfl
    | some i =>
      obtain ⟨front, rest, rfl, rfl, -⟩ := Text.exists_of_lastIndex? hlast
      refine ⟨front.length + a.length + 1, ?_, ?_, ?_⟩
      · rw [Request.pathStart, hslash, hlast, Option.map_some]
        rfl
      · simp
        omega
      · rw [Text.take_through, List.drop_left, List.append_assoc, tokenize_append ha,
          words_to_slash_append_shell hline.of_append.2 hb]

end PaneCompletion
