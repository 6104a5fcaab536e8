import PaneCompletion.Proofs.Context.Start
import PaneCompletion.Proofs.Line.Unquoted

/-!
# Arguments without quotes

The argument that is completed is found twice: as the last word, whose value is the fragment, and as
the text behind an offset, at whose last slash the candidate goes in. Where that text has neither
quotes nor backslashes the two are the same, but for separators that follow the word
(`Request.argument_cases`); a tab at the end of a line is the only way to them, for a space there
begins a new argument. So the line is cut where the fragment is (`Request.pathStart_ofLine_bare`).

1. words of ordinary characters;
2. spaces at the end;
3. the fragment in the line;
4. the splice offset in the fragment.
-/

namespace PaneCompletion

open Token Token.Reader

/-- Nothing in a text is quoted or taken as it is. -/
def Bare (text : Text) : Prop := ∀ c ∈ text, c ≠ '\\' ∧ isQuote c = false

instance (text : Text) : Decidable (Bare text) :=
  List.decidableBAll (fun c => c ≠ '\\' ∧ isQuote c = false) text

theorem Bare.of_excludes {special : List Char} (hspecial : ['\'', '"', '\\'] ⊆ special)
    {text : Text} (h : ∀ c ∈ text, c ∉ special) : Bare text := by
  intro c hc
  have hplain : c ∉ ['\'', '"', '\\'] := fun hmem => h c hc (hspecial hmem)
  simp only [List.mem_cons, List.not_mem_nil, or_false, not_or] at hplain
  simp [isQuote, hplain]

namespace Token

/-! ## Words of ordinary characters -/

/-- A text in which no word begins is all separators. -/
theorem separates_of_starts_nil {text : Text} (h : (tokenize text).starts = []) :
    ∀ c ∈ text, Separates c := by
  induction text with
  | nil => simp
  | cons c rest ih =>
    have hc : Separates c := by
      by_contra hword
      have hstarts : (start.step c).starts <+: (tokenize (c :: rest)).starts :=
        starts_prefix_run (start.step c) rest
      rw [h, starts_step, if_pos ⟨rfl, hword⟩] at hstarts
      simp at hstarts
    have hstarts := congrArg Tokens.starts (tokenize_append (endsInGap_separator hc) rest)
    rw [List.singleton_append, h] at hstarts
    have hrest : (tokenize rest).starts = [] := by
      simpa using (List.append_eq_nil_iff.mp hstarts.symm).2
    exact List.forall_mem_cons.mpr ⟨hc, ih hrest⟩

theorem Reader.run_ordinary {r : Reader} (hbare : r.mode = .bare) {word : Text}
    (hword : ∀ c ∈ word, Ordinary c) : r.run word = r.took word word := by
  induction word generalizing r with
  | nil => simp [took]
  | cons c rest ih =>
    obtain ⟨hc, hrest⟩ := List.forall_mem_cons.mp hword
    have htook : (r.took [c] [c]).mode = .bare := hbare
    rw [run_cons, step_ordinary hbare hc, ih htook hrest, took_took]
    rfl

theorem run_word {word : Text} (hne : word ≠ []) (hword : ∀ c ∈ word, Ordinary c) :
    start.run word = start.opened.took word word := by
  obtain ⟨c, rest, rfl⟩ := List.exists_cons_of_ne_nil hne
  rw [run_eq_opened rfl (hword c List.mem_cons_self).1, Reader.run_ordinary rfl hword]

/-- A separator ends a word of ordinary characters. -/
theorem tokenize_word_separator {word : Text} (hne : word ≠ []) (hword : ∀ c ∈ word, Ordinary c)
    {s : Char} (hs : Separates s) :
    EndsInGap (word ++ [s]) ∧ tokenize (word ++ [s]) = ⟨[word], [0], none⟩ := by
  have hrun : start.run (word ++ [s]) =
      (start.opened.took word word).closed.move .gap [] := by
    rw [run_append, run_word hne hword, run_cons, run_nil, step_separator rfl hs]
  exact ⟨by rw [EndsInGap, hrun]; rfl, by simp only [tokenize, hrun]; rfl⟩

/-- In front of its first separator a text can be cut in two. -/
theorem exists_first_separator (text : Text) :
    ∃ word gap, text = word ++ gap ∧ (∀ c ∈ word, ¬Separates c) ∧
      ∀ c more, gap = c :: more → Separates c := by
  refine ⟨text.takeWhile (¬Separates ·), text.dropWhile (¬Separates ·),
    List.takeWhile_append_dropWhile.symm, ?_, ?_⟩
  · intro c hc
    simpa using List.mem_takeWhile_imp hc
  · intro c more hgap
    have hhead := List.head?_dropWhile_not (¬Separates ·) text
    rw [hgap] at hhead
    exact Decidable.not_not.mp (of_decide_eq_false hhead)

/-- The only word of a bare text is what stands in front of the separators at its end. -/
theorem exists_word_gap {text : Text} (hbare : Bare text) (hone : (tokenize text).starts = [0]) :
    ∃ word gap, text = word ++ gap ∧ word ≠ [] ∧ (∀ c ∈ gap, Separates c) ∧
      (tokenize text).words = [word] := by
  obtain ⟨word, gap, rfl, hgoes, hends⟩ := exists_first_separator text
  have hordinary : ∀ c ∈ word, Ordinary c :=
    fun c hc => ⟨hgoes c hc, hbare c (List.mem_append_left _ hc)⟩
  have hne : word ≠ [] := by
    rintro rfl
    cases gap with
    | nil => simp [tokenize, start] at hone
    | cons c more => exact not_separates_of_starts hone (hends c more rfl)
  cases gap with
  | nil =>
    refine ⟨word, [], rfl, hne, by simp, ?_⟩
    rw [List.append_nil]
    simp only [tokenize, run_word hne hordinary]
    rfl
  | cons s more =>
    have hs : Separates s := hends s more rfl
    obtain ⟨hgap, hfirst⟩ := tokenize_word_separator hne hordinary hs
    have hall := tokenize_append hgap more
    rw [← List.append_cons, hfirst] at hall
    rw [hall] at hone
    -- another word behind the separator would be a second one
    have hnone : (tokenize more).starts = [] := by simpa using hone
    have hwords : (tokenize more).words = [] :=
      (allWords_eq_nil_iff (consistent_run more)).mpr hnone
    exact ⟨word, s :: more, rfl, hne,
      List.forall_mem_cons.mpr ⟨hs, separates_of_starts_nil hnone⟩, by rw [hall, hwords]; rfl⟩

/-! ## Spaces at the end -/

theorem getLast?_of_endsInSpace {text : Text} (h : endsInSpace text = true) :
    text.getLast? = some ' ' := by
  induction text using endsInSpace.induct with
  | case1 => simp [endsInSpace] at h
  | case2 c => simpa [endsInSpace] using h
  | case3 d rest ih =>
    rw [endsInSpace, if_pos rfl] at h
    rw [List.getLast?_cons_of_ne_nil (by simp), List.getLast?_cons, ih h]
    rfl
  | case4 c d rest hslash ih =>
    rw [endsInSpace, if_neg hslash] at h
    rw [List.getLast?_cons, ih h]
    rfl

/-- Without backslashes a space at the end is one that ends an argument. -/
theorem endsInSpace_append_space {front : Text} (hbare : Bare front) :
    endsInSpace (front ++ [' ']) = true := by
  induction front with
  | nil => rfl
  | cons c rest ih =>
    obtain ⟨hc, hrest⟩ := List.forall_mem_cons.mp hbare
    have hends := ih hrest
    cases rest with
    | nil => simp [endsInSpace, hc.1]
    | cons d more =>
      rw [List.cons_append, List.cons_append, endsInSpace, if_neg hc.1]
      exact hends

end Token

namespace Request

/-! ## The fragment in the line -/

variable (command : Command) {line : Text}

theorem reading_ofLine_bare (hbare : Bare (line.drop (argumentStart line))) :
    (ofLine command line).reading = .plain :=
  readingOf_plain fun c hc => (hbare c (List.mem_of_mem_head? hc)).2

theorem spacedArgument_of_endsInSpace {request : Request}
    (hspace : endsInSpace request.line = true) : request.spacedArgument = [] := by
  obtain ⟨front, hfront⟩ := List.getLast?_eq_some_iff.mp (getLast?_of_endsInSpace hspace)
  rw [spacedArgument, spacedStart, hfront, Text.reach_append (by simp), List.drop_eq_nil_iff]
  simp

/-- Either no word is under way, and then nothing of an argument has been typed, but for tabs; or
the fragment is what has been typed of it, but for separators at its end. -/
theorem argument_cases (hbare : Bare (line.drop (argumentStart line))) :
    ((ofLine command line).inWord = false ∧ line.drop (argumentStart line) = [] ∧
      ∀ c ∈ (ofLine command line).fragment, c = '\t') ∨
    ((ofLine command line).inWord = true ∧ ∃ gap, (∀ c ∈ gap, Separates c) ∧
      line.drop (argumentStart line) = (ofLine command line).fragment ++ gap ∧
      (ofLine command line).fragment ≠ []) := by
  have hplain := reading_ofLine_bare command hbare
  by_cases hnone : (tokenize line).starts = []
  · have hwords : (tokenize line).words = [] :=
      (allWords_eq_nil_iff (consistent_run line)).mpr hnone
    have hword : (ofLine command line).inWord = false := by
      simp [inWord, wordCount, ofLine, hwords]
    refine .inl ⟨hword, by rw [argumentStart_of_no_word hnone, List.drop_length], ?_⟩
    intro c hc
    rw [fragment, hplain, hword] at hc
    have hspace : c ≠ ' ' := by
      rintro rfl
      exact Text.not_mem_drop_reach ' ' line hc
    exact (separates_of_starts_nil hnone c (List.mem_of_mem_drop hc)).resolve_left hspace
  · cases hspace : endsInSpace line with
    | true =>
      have hword : (ofLine command line).inWord = false := by simp [inWord, ofLine, hspace]
      refine .inl ⟨hword, by rw [argumentStart_of_space hspace, List.drop_length], ?_⟩
      have hnothing : (ofLine command line).fragment = [] := by
        rw [fragment, hplain, hword]
        exact spacedArgument_of_endsInSpace hspace
      simp [hnothing]
    | false =>
      obtain ⟨a, b, rfl, ha, hb⟩ := exists_last_word line hnone
      have hlast : (tokenize (a ++ b)).starts.getLast? = some a.length := by
        rw [tokenize_append ha, hb]
        simp
      rw [argumentStart_of_word hspace hlast, List.drop_left] at hbare ⊢
      obtain ⟨word, gap, rfl, hne, hgap, hwords⟩ := exists_word_gap hbare hb
      have hall : (tokenize (a ++ (word ++ gap))).words = (tokenize a).words ++ [word] := by
        rw [tokenize_append ha, hwords]
      have hword : (ofLine command (a ++ (word ++ gap))).inWord = true := by
        simp [inWord, wordCount, ofLine, hall, hspace]
      have hfragment : (ofLine command (a ++ (word ++ gap))).fragment = word := by
        rw [fragment, hplain, if_pos hword]
        simp [ofLine, hall]
      exact .inr ⟨hword, gap, hgap, by rw [hfragment], by rw [hfragment]; exact hne⟩

theorem stopsAtQuote_of_getLast? {request : Request} {c : Char}
    (h : request.line.getLast? = some c) :
    request.stopsAtQuote = (request.inWord && isQuote c) := by
  rw [stopsAtQuote, h]

theorem stopsAtQuote_ofLine_bare (hbare : Bare (line.drop (argumentStart line))) :
    (ofLine command line).stopsAtQuote = false := by
  rcases argument_cases command hbare with ⟨hword, -, -⟩ | ⟨-, gap, -, hargument, hne⟩
  · rw [stopsAtQuote, hword, Bool.false_and]
  · have hend : ¬line.length ≤ argumentStart line := by
      rw [← List.drop_eq_nil_iff, hargument]
      simp [hne]
    have hline : line ≠ [] := by
      rintro rfl
      exact hend (Nat.zero_le _)
    have hlast := List.getLast?_eq_some_getLast hline
    have hquote : isQuote (line.getLast hline) = false := by
      refine (hbare _ (List.mem_of_getLast? ?_)).2
      rw [List.getLast?_drop, if_neg hend, hlast]
    rw [stopsAtQuote_of_getLast? hlast, hquote, Bool.and_false]

/-- An argument without a tilde has a fragment without one at its beginning. -/
theorem head?_fragment_ne_tilde (hbare : Bare (line.drop (argumentStart line)))
    (htilde : '~' ∉ line.drop (argumentStart line)) :
    (ofLine command line).fragment.head? ≠ some '~' := by
  intro hhead
  have hmem := List.mem_of_mem_head? hhead
  rcases argument_cases command hbare with ⟨-, -, htabs⟩ | ⟨-, gap, -, heq, -⟩
  · exact absurd (htabs _ hmem) (by decide)
  · exact htilde (by rw [heq]; exact List.mem_append_left _ hmem)

/-- In a line without tabs the fragment is what has been typed of the argument. -/
theorem fragment_ofLine_bare (hbare : Bare line) (htab : '\t' ∉ line) :
    (ofLine command line).fragment = line.drop (argumentStart line) := by
  have hargument : Bare (line.drop (argumentStart line)) :=
    fun c hc => hbare c (List.mem_of_mem_drop hc)
  rcases argument_cases command hargument with
    ⟨hword, hnil, htabs⟩ | ⟨hword, gap, hgap, heq, -⟩
  · rw [hnil, List.eq_nil_iff_forall_not_mem]
    intro c hc
    obtain rfl := htabs c hc
    rw [fragment, reading_ofLine_bare command hargument, hword] at hc
    exact htab (List.mem_of_mem_drop hc)
  · rcases List.eq_nil_or_concat gap with rfl | ⟨front, c, rfl⟩
    · rw [heq, List.append_nil]
    have hline : line = line.take (argumentStart line) ++
        ((ofLine command line).fragment ++ front) ++ [c] := by
      rw [List.append_assoc, List.append_assoc, ← List.concat_eq_append, ← heq,
        List.take_append_drop]
    have hc : c = ' ' := by
      refine (hgap c (by simp)).resolve_right ?_
      rintro rfl
      exact htab (by rw [hline]; simp)
    rw [hc] at hline
    have hspace : endsInSpace line = true := by
      rw [hline]
      exact endsInSpace_append_space fun c hc =>
        hbare c (by rw [hline]; exact List.mem_append_left _ hc)
    simp [inWord, ofLine, hspace] at hword

/-! ## The splice offset in the fragment -/

/-- The fragment has its last slash where the argument has it. -/
theorem take_reach_argument (hbare : Bare (line.drop (argumentStart line))) :
    let reach := Text.reach '/' (ofLine command line).fragment
    Text.reach '/' (line.drop (argumentStart line)) = reach ∧
      (line.drop (argumentStart line)).take reach =
        (ofLine command line).fragment.take reach := by
  intro reach
  rcases argument_cases command hbare with ⟨-, hnil, htabs⟩ | ⟨-, gap, hgap, heq, -⟩
  · have hslash : '/' ∉ (ofLine command line).fragment :=
      fun hmem => absurd (htabs _ hmem) (by decide)
    have hreach : reach = 0 := Text.reach_eq_zero_iff.mpr hslash
    rw [hnil, hreach]
    exact ⟨rfl, rfl⟩
  · have hslash : '/' ∉ gap := fun hmem => absurd (hgap _ hmem) (by decide)
    rw [heq, Text.reach_append_of_not_mem hslash, List.take_append_of_le_length (Text.reach_le _ _)]
    exact ⟨rfl, rfl⟩

/-- The line is cut where the fragment has its last slash. -/
theorem pathStart_ofLine_bare (hbare : Bare (line.drop (argumentStart line))) :
    let reach := Text.reach '/' (ofLine command line).fragment
    (ofLine command line).pathStart = ((argumentStart line + reach : Nat) : Int) ∧
      argumentStart line + reach ≤ line.length ∧
      (line.take (argumentStart line + reach)).drop (argumentStart line) =
        (ofLine command line).fragment.take reach := by
  intro reach
  obtain ⟨hreach, htake⟩ := take_reach_argument command hbare
  have hle := Text.reach_le '/' (line.drop (argumentStart line))
  have hstart := argumentStart_le line
  rw [hreach, List.length_drop] at hle
  refine ⟨?_, ?_, ?_⟩
  · show _ = ((argumentStart line + Text.reach '/' (ofLine command line).fragment : Nat) : Int)
    rw [← hreach, pathStart, slash?_ofLine, Text.lastIndexFrom?, reading_ofLine_bare command hbare,
      Text.reach]
    cases Text.lastIndex? '/' (line.drop (argumentStart line)) with
    | none => rfl
    | some i =>
      simp only [Option.map_some]
      omega
  · show argumentStart line + Text.reach '/' (ofLine command line).fragment ≤ line.length
    omega
  · rw [List.drop_take, Nat.add_sub_cancel_left]
    exact htake

end Request

end PaneCompletion
