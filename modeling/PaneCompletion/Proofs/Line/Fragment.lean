import PaneCompletion.Proofs.Line.Quoted

/-!
# Quoted arguments read twice

An argument that begins with a quote is read twice: by the word reader, and from the raw text behind
its quote by the function that takes the value of a text inside that quote. The second does not look
for the end of the quote. As long as there is none the two agree; behind it the second takes the
quote that closes for a character of the value, and the rest of the word for quoted text.

They never meet again (`fragment_eq_last_word_iff`), but not for a reason that the next character
would show: each drops characters that the other keeps. What the reader has taken on after the quote
has, quote by quote, come from the text behind it (`Reader.exists_grown`), and what the other
function has made of that text has one quote more in front. So the quotes are counted, the single
ones by runs, since two of them in a row may stand for one.

1. texts that spell a value inside a quote;
2. counting quotes;
3. how a word grows;
4. both readings of an argument.
-/

namespace PaneCompletion

open Token Token.Reader

namespace Quote

/-! ## Texts that spell a value inside a quote -/

/-- A piece of a text inside a quote that stands for one character, whatever follows. -/
inductive Piece : Quote → Text → Char → Prop
  | plain {quote : Quote} {c : Char} (hquote : c ≠ quote.char)
      (hback : quote = .double → c ≠ '\\') : Piece quote [c] c
  | doubled : Piece .single ['\'', '\''] '\''
  | escaped (c : Char) : Piece .double ['\\', c] (Token.escaped c)

/-- A text inside a quote that stands for a value, whatever follows. -/
inductive Spells (quote : Quote) : Text → Text → Prop
  | nil : Spells quote [] []
  | cons {piece text value : Text} {c : Char} (hpiece : Piece quote piece c)
      (h : Spells quote text value) : Spells quote (piece ++ text) (c :: value)

/-- What may follow a text inside a quote that spells a value to its end, where the quote is still
open and where it closes. -/
inductive Ends : Quote → Bool → Text → Prop
  | nil {quote : Quote} : Ends quote true []
  | backslash : Ends .double true ['\\']
  | closing (quote : Quote) {rest : Text} (hrest : quote = .single → rest.head? ≠ some '\'') :
      Ends quote false (quote.char :: rest)

variable {quote : Quote} {piece text value rest : Text} {c : Char}

theorem Piece.run (h : Piece quote piece c) {r : Reader} (hmode : r.mode = quote.mode) :
    r.run piece = r.took piece [c] := by
  cases h with
  | plain hquote hback =>
    cases quote with
    | single => exact step_single hmode hquote
    | double => exact step_double hmode (hback rfl) hquote
  | doubled => exact run_doubled_quote hmode
  | escaped c => exact run_escaped hmode c

theorem Piece.unquote_append (h : Piece quote piece c) (rest : Text) :
    quote.unquote (piece ++ rest) = c :: quote.unquote rest := by
  cases h with
  | plain hquote hback =>
    cases quote with
    | single => exact unquoteSingle_cons hquote rest
    | double => exact unquoteDouble_cons (hback rfl) rest
  | doubled => rfl
  | escaped c =>
    show unquoteDouble ('\\' :: c :: rest) = _
    rw [unquoteDouble, if_pos rfl]
    rfl

theorem Spells.run (h : Spells quote text value) {r : Reader} (hmode : r.mode = quote.mode) :
    r.run text = r.took text value := by
  induction h generalizing r with
  | nil => simp [took]
  | cons hpiece h ih =>
    rw [run_append, hpiece.run hmode, ih (r := r.took _ _) hmode, took_took]
    rfl

theorem Spells.unquote_append (h : Spells quote text value) (rest : Text) :
    quote.unquote (text ++ rest) = value ++ quote.unquote rest := by
  induction h with
  | nil => rfl
  | cons hpiece h ih => rw [List.append_assoc, hpiece.unquote_append, ih, List.cons_append]

/-- A text inside a quote is at its end, or begins with a piece that leaves open whether the quote
closes. -/
theorem ends_or_piece (quote : Quote) (body : Text) :
    Ends quote (leavesOpen quote body) body ∨ ∃ piece c rest, Piece quote piece c ∧
      body = piece ++ rest ∧ leavesOpen quote body = leavesOpen quote rest := by
  fun_cases leavesOpen quote body with
  | case1 => exact .inl .nil
  | case2 c =>
    by_cases hc : c = '\''
    · subst hc
      exact .inl (.closing .single (by simp))
    · exact .inr ⟨[c], c, [], .plain hc (by simp), rfl, by simp [leavesOpen, hc]⟩
  | case3 d rest =>
    by_cases hd : d = '\''
    · subst hd
      exact .inr ⟨['\'', '\''], '\'', rest, .doubled, rfl, by simp⟩
    · rw [decide_eq_false hd, Bool.false_and]
      exact .inl (.closing .single (by simpa using hd))
  | case4 c d rest hc => exact .inr ⟨[c], c, d :: rest, .plain hc (by simp), rfl, rfl⟩
  | case5 c =>
    by_cases hquote : c = '"'
    · subst hquote
      exact .inl (.closing .double (by simp))
    · rw [decide_eq_true hquote]
      by_cases hback : c = '\\'
      · exact .inl (hback ▸ .backslash)
      · exact .inr ⟨[c], c, [], .plain hquote fun _ => hback, rfl, rfl⟩
  | case6 d rest => exact .inr ⟨['\\', d], escaped d, rest, .escaped d, rfl, rfl⟩
  | case7 c d rest hback =>
    by_cases hquote : c = '"'
    · subst hquote
      exact .inl (.closing .double (by simp))
    · exact .inr ⟨[c], c, d :: rest, .plain hquote fun _ => hback, rfl, by simp [hquote]⟩

theorem exists_spells (quote : Quote) (body : Text) :
    ∃ text value rest, body = text ++ rest ∧ Spells quote text value ∧
      Ends quote (leavesOpen quote body) rest := by
  induction hlength : body.length using Nat.strongRecOn generalizing body with
  | _ n ih =>
    rcases ends_or_piece quote body with hends | ⟨piece, c, rest, hpiece, rfl, hopen⟩
    · exact ⟨[], [], body, rfl, .nil, hends⟩
    · have hshort : rest.length < n := by
        have hne : piece ≠ [] := by cases hpiece <;> simp
        have hpos := List.length_pos_iff.mpr hne
        rw [List.length_append] at hlength
        omega
      obtain ⟨text, value, more, rfl, hspells, hends⟩ := ih _ hshort rest rfl
      rw [hopen]
      exact ⟨piece ++ text, c :: value, more, (List.append_assoc ..).symm,
        .cons hpiece hspells, hends⟩

/-! ## Counting quotes -/

/-- Which characters of a text are the quote. -/
def marks (quote : Quote) (text : Text) : List Bool := text.map (· == quote.char)

@[simp] theorem marks_nil (quote : Quote) : quote.marks [] = [] := rfl

@[simp] theorem marks_cons (quote : Quote) (c : Char) (text : Text) :
    quote.marks (c :: text) = (c == quote.char) :: quote.marks text := rfl

theorem marks_append (quote : Quote) (a b : Text) :
    quote.marks (a ++ b) = quote.marks a ++ quote.marks b := List.map_append

/-- How many runs of marks begin in a list, where one may be under way in front of it. -/
def runs (under : Bool) : List Bool → Nat
  | [] => 0
  | mark :: rest => runs mark rest + if mark && !under then 1 else 0

/-- The quotes in a text as the function counts them that takes its value: the double ones one by
one, the single ones by runs. -/
def tally : Quote → Text → Nat
  | .single, text => runs false (marks .single text)
  | .double, text => (marks .double text).count true

theorem runs_true_le (list : List Bool) : runs true list ≤ runs false list := by
  cases list <;> simp [runs]

theorem runs_false_le (list : List Bool) : runs false list ≤ runs true list + 1 := by
  cases list with
  | nil => simp [runs]
  | cons mark rest => cases mark <;> simp [runs]

/-- Where marks are taken away, or others between them, no run is gained. -/
theorem runs_le_of_sublist {a b : List Bool} (h : a.Sublist b) (under : Bool) :
    runs under a ≤ runs under b := by
  induction h generalizing under with
  | slnil => exact Nat.le_refl _
  | @cons a b mark h ih =>
    have htrue := ih true
    have hfalse := ih false
    have hopens := runs_false_le a
    have hcloses := runs_true_le a
    cases mark <;> cases under <;> simp [runs] <;> omega
  | cons_cons mark h ih =>
    have hrest := ih mark
    simp only [runs]
    omega

theorem tally_le_of_sublist {a b : Text} (h : (quote.marks a).Sublist (quote.marks b)) :
    quote.tally a ≤ quote.tally b := by
  cases quote with
  | single => exact runs_le_of_sublist h false
  | double => exact h.count_le true

/-- Two single quotes in a row are in the same run as the one they stand for. -/
theorem runs_unquoteSingle (text : Text) (under : Bool) :
    runs under (marks .single (unquoteSingle text)) = runs under (marks .single text) := by
  fun_induction unquoteSingle text generalizing under with
  | case1 => rfl
  | case2 rest ih => simp [runs, Quote.char, ih]
  | case3 c rest hc ih => rw [marks_cons, marks_cons, runs, runs, ih]

theorem escaped_beq_char (quote : Quote) (c : Char) :
    (escaped c == quote.char) = (c == quote.char) := by
  unfold escaped
  split_ifs <;> cases quote <;> simp_all [Quote.char]

theorem count_unquoteDouble (text : Text) :
    (marks .double (unquoteDouble text)).count true = (marks .double text).count true := by
  fun_induction unquoteDouble text with
  | case1 => rfl
  | case2 c => rfl
  | case3 d rest ih =>
    rw [marks_cons, marks_cons, marks_cons, escaped_beq_char, List.count_cons, List.count_cons,
      List.count_cons, ih]
    simp [Quote.char]
  | case4 c d rest hc ih => rw [marks_cons, marks_cons, List.count_cons, List.count_cons, ih]

/-- The value of a text inside a quote, behind one more quote that none follows, has one quote more
than the text. -/
theorem tally_char_unquote {rest : Text} (hrest : quote = .single → rest.head? ≠ some '\'') :
    quote.tally (quote.char :: quote.unquote rest) = quote.tally rest + 1 := by
  cases quote with
  | single =>
    have hhead := hrest rfl
    have hruns : runs true (marks .single rest) = runs false (marks .single rest) := by
      cases rest with
      | nil => rfl
      | cons c more =>
        have hc : c ≠ '\'' := by simpa using hhead
        simp [runs, Quote.char, hc]
    simp [tally, runs, unquote, runs_unquoteSingle, hruns]
  | double => simp [tally, unquote, count_unquoteDouble]

end Quote

namespace Token

/-! ## How a word grows -/

/-- The backslash that is waiting for the character it takes. -/
def Mode.waiting : Mode → Text
  | .bareEscape | .doubleEscape => ['\\']
  | _ => []

namespace Reader

theorem allWords_of_word {r : Reader} (hword : r.mode ≠ .gap) :
    r.allWords = r.words ++ [r.value ++ r.mode.waiting] := by
  cases r with
  | mk offset words starts value mode => cases mode <;> simp_all [allWords, Mode.waiting]

/-- Outside quotes a character ends the word, or the word takes on what stands for it. -/
theorem bareStep_grows (quote : Quote) (r : Reader) (c : Char) :
    r.bareStep c = r.closed.move .gap [] ∨ ∃ mode more, mode ≠ .gap ∧
      r.bareStep c = r.move mode (r.value ++ more) ∧
      (quote.marks (more ++ mode.waiting)).Sublist (quote.marks [c]) := by
  unfold bareStep
  split_ifs with hgap hback hsingle hdouble
  · exact .inl rfl
  · exact .inr ⟨.bareEscape, [], by simp, by simp, by simp [Mode.waiting, hback]⟩
  · exact .inr ⟨.single, [], by simp, by simp, by simp [Mode.waiting]⟩
  · exact .inr ⟨.double, [], by simp, by simp, by simp [Mode.waiting]⟩
  · exact .inr ⟨.bare, [c], by simp, rfl, by simp [Mode.waiting]⟩

/-- Inside a word a character ends the word, or the word takes on what stands for it. Quotes are
taken on for quotes only. -/
theorem step_grows (quote : Quote) {r : Reader} (hword : r.mode ≠ .gap) (c : Char) :
    r.step c = r.closed.move .gap [] ∨ ∃ mode more, mode ≠ .gap ∧
      r.step c = r.move mode (r.value ++ more) ∧
      (quote.marks (more ++ mode.waiting)).Sublist (quote.marks (r.mode.waiting ++ [c])) := by
  cases hmode : r.mode with
  | gap => exact absurd hmode hword
  | bare =>
    simp only [step, hmode]
    exact bareStep_grows quote r c
  | bareEscape =>
    simp only [step, hmode]
    exact .inr ⟨.bare, [c], by simp, rfl, by simp [Mode.waiting]⟩
  | single =>
    simp only [step, hmode]
    split_ifs with hc
    · exact .inr ⟨.singleEnd, [], by simp, by simp, by simp [Mode.waiting]⟩
    · exact .inr ⟨.single, [c], by simp, rfl, by simp [Mode.waiting]⟩
  | singleEnd =>
    simp only [step, hmode]
    split_ifs with hc
    · exact .inr ⟨.single, ['\''], by simp, rfl, by simp [Mode.waiting, hc]⟩
    · exact bareStep_grows quote r c
  | double =>
    simp only [step, hmode]
    split_ifs with hback hquote
    · exact .inr ⟨.doubleEscape, [], by simp, by simp, by simp [Mode.waiting, hback]⟩
    · exact .inr ⟨.bare, [], by simp, by simp, by simp [Mode.waiting]⟩
    · exact .inr ⟨.double, [c], by simp, rfl, by simp [Mode.waiting]⟩
  | doubleEscape =>
    simp only [step, hmode]
    exact .inr ⟨.double, [escaped c], by simp, rfl,
      by simp [Mode.waiting, Quote.escaped_beq_char]⟩

/-- Where no word begins behind a gap, there is none. -/
theorem allWords_run_of_gap {r : Reader} (hgap : r.mode = .gap) {text : Text}
    (hstarts : (r.run text).starts = r.starts) : (r.run text).allWords = r.words := by
  induction text generalizing r with
  | nil => simp [allWords, hgap]
  | cons c rest ih =>
    rw [run_cons] at hstarts ⊢
    rcases step_cases r c with
      ⟨-, -, hstep⟩ | ⟨-, hc, -⟩ | ⟨hword, -⟩ | ⟨hword, -⟩
    · rw [ih (by rw [hstep]; rfl) (by rw [hstarts, hstep]; rfl), hstep]
      rfl
    · have hlater := starts_prefix_run (r.step c) rest
      rw [hstarts, starts_step, if_pos ⟨hgap, hc⟩] at hlater
      have hlength := hlater.length_le
      rw [List.length_append, List.length_singleton] at hlength
      omega
    · exact absurd hgap hword
    · exact absurd hgap hword

/-- As long as no other word begins, the word under way takes on quotes only for those that are
read. -/
theorem exists_grown (quote : Quote) {r : Reader} (hword : r.mode ≠ .gap) {text : Text}
    (hstarts : (r.run text).starts = r.starts) :
    ∃ grown, (r.run text).allWords.getLast? = some (r.value ++ grown) ∧
      (quote.marks grown).Sublist (quote.marks (r.mode.waiting ++ text)) := by
  induction text generalizing r with
  | nil => exact ⟨r.mode.waiting, by simp [allWords_of_word hword], by simp⟩
  | cons c rest ih =>
    rw [run_cons] at hstarts ⊢
    rcases step_grows quote hword c with hstep | ⟨mode, more, hmode, hstep, hmarks⟩
    · refine ⟨[], ?_, List.nil_sublist _⟩
      rw [hstep] at hstarts ⊢
      rw [allWords_run_of_gap rfl hstarts]
      simp [closed, move]
    · rw [hstep] at hstarts ⊢
      obtain ⟨grown, hlast, hgrown⟩ := ih (r := r.move mode (r.value ++ more)) hmode hstarts
      refine ⟨more ++ grown, by rw [hlast, ← List.append_assoc]; rfl, ?_⟩
      rw [Quote.marks_append] at hgrown
      have hmore : (quote.marks (more ++ grown)).Sublist
          (quote.marks (more ++ mode.waiting) ++ quote.marks rest) := by
        rw [Quote.marks_append, Quote.marks_append, List.append_assoc]
        exact hgrown.append_left (quote.marks more)
      have hread := hmore.trans (hmarks.append_right (quote.marks rest))
      rwa [← Quote.marks_append, List.append_assoc, List.singleton_append] at hread

end Reader

end Token

/-! ## Both readings of an argument -/

namespace Quote

/-- The mode behind a quote that closes: behind a single one another may follow. -/
def closedMode : Quote → Mode
  | .single => .singleEnd
  | .double => .bare

theorem step_closing {quote : Quote} {r : Reader} (hmode : r.mode = quote.mode) :
    r.step quote.char = r.move quote.closedMode r.value := by
  cases quote <;> simp only [Quote.mode] at hmode <;> simp [step, hmode, Quote.char, closedMode]

/-- The quote that closes is taken for a character of the value. -/
theorem unquote_closing {quote : Quote} {rest : Text}
    (hrest : quote = .single → rest.head? ≠ some '\'') :
    quote.unquote (quote.char :: rest) = quote.char :: quote.unquote rest := by
  cases quote with
  | single =>
    have hhead := hrest rfl
    cases rest with
    | nil => rfl
    | cons c more =>
      have hc : c ≠ '\'' := by simpa using hhead
      show unquoteSingle ('\'' :: c :: more) = _
      rw [unquoteSingle]
      · rfl
      · rintro _ - heq
        exact hc (List.cons.inj heq).1
  | double => exact unquoteDouble_cons (by decide) rest

theorem getLast_words_iff {quote : Quote} {body : Text}
    (hstarts : (tokenize (quote.char :: body)).starts = [0]) :
    (tokenize (quote.char :: body)).words.getLast? = some (quote.unquote body) ↔
      leavesOpen quote body = true := by
  obtain ⟨text, value, rest, rfl, hspells, hends⟩ := exists_spells quote body
  -- the reader where the text that spells a value is over
  let r := (start.opened.move quote.mode []).took text value
  have hmode : r.mode = quote.mode := rfl
  have hvalue : r.value = value := rfl
  have hword : r.mode ≠ .gap := by rw [hmode]; cases quote <;> simp [Quote.mode]
  have hread : start.run (quote.char :: (text ++ rest)) = r.run rest := by
    rw [← List.singleton_append, run_append, run_quote_char rfl, run_append, hspells.run rfl]
    rfl
  rw [tokenize, hread] at hstarts ⊢
  rw [hspells.unquote_append]
  generalize leavesOpen quote (text ++ rest) = opened at hends
  cases hends with
  | nil =>
    refine iff_of_true ?_ rfl
    rw [run_nil, allWords_of_word hword, hvalue, hmode]
    cases quote <;> simp [Quote.mode, Mode.waiting, unquote, unquoteSingle, unquoteDouble]
  | backslash =>
    refine iff_of_true ?_ rfl
    have hstep : r.step '\\' = r.move .doubleEscape r.value := by simp [step, hmode, Quote.mode]
    rw [run_cons, run_nil, hstep, allWords_of_word (by simp [move])]
    simp [move, Mode.waiting, unquote, unquoteDouble, hvalue]
  | @closing _ rest hrest =>
    refine iff_of_false ?_ (by decide)
    rw [run_cons, step_closing hmode] at hstarts ⊢
    have hbehind : (r.move quote.closedMode r.value).mode ≠ .gap := by
      cases quote <;> simp [move, closedMode]
    obtain ⟨grown, hlast, hgrown⟩ := exists_grown quote hbehind hstarts
    rw [hlast, unquote_closing hrest]
    intro heq
    have hsame : grown = quote.char :: quote.unquote rest :=
      List.append_cancel_left (Option.some.inj heq)
    have hnothing : (r.move quote.closedMode r.value).mode.waiting = [] := by
      cases quote <;> rfl
    rw [hnothing, List.nil_append] at hgrown
    have htally := tally_le_of_sublist hgrown
    rw [hsame, tally_char_unquote hrest] at htally
    omega

end Quote

theorem head?_of_readingOf {argument : Text} {quote : Quote}
    (hreading : readingOf argument = .quoted quote) : argument.head? = some quote.char := by
  unfold readingOf at hreading
  split at hreading
  · next hhead =>
    obtain rfl := Reading.quoted.inj hreading
    exact hhead
  · next hhead =>
    obtain rfl := Reading.quoted.inj hreading
    exact hhead
  · simp at hreading

/-- An argument that is read as quoted is the last word of its line, and begins with the quote. -/
theorem exists_quoted_split {line : Text} {quote : Quote}
    (hreading : readingOf (line.drop (argumentStart line)) = .quoted quote) :
    ∃ front body, line = front ++ quote.char :: body ∧ EndsInGap front ∧
      argumentStart line = front.length ∧ (tokenize (quote.char :: body)).starts = [0] := by
  have hhead := head?_of_readingOf hreading
  have hinside : argumentStart line ≠ line.length := by
    intro hend
    simp [hend] at hhead
  have hspace : endsInSpace line = false := by
    rw [← Bool.not_eq_true]
    exact fun hspace => hinside (argumentStart_of_space hspace)
  obtain ⟨front, word, rfl, hfront, hstarts⟩ :=
    exists_last_word line (fun hnone => hinside (argumentStart_of_no_word hnone))
  have hstart : argumentStart (front ++ word) = front.length :=
    argumentStart_of_word hspace (by simp [tokenize_append hfront, hstarts])
  rw [hstart, List.drop_left] at hhead
  cases word with
  | nil => simp at hhead
  | cons c body =>
    obtain rfl : c = quote.char := by simpa using hhead
    exact ⟨front, body, rfl, hfront, hstart, hstarts⟩

section Quoted

variable (command : Command) {front body : Text} {quote : Quote}

theorem lineFrom_ofLine_quoted
    (hstart : argumentStart (front ++ quote.char :: body) = front.length) :
    let request := Request.ofLine command (front ++ quote.char :: body)
    request.lineFrom (request.position + 1) = body := by
  simp only [Request.lineFrom, Request.ofLine, hstart]
  have hbehind : (front.length : Int) + 1 = ((front.length + 1 : Nat) : Int) := rfl
  rw [hbehind, Text.offset_natCast, List.append_cons, List.drop_left' (by simp)]

theorem Request.fragment_of_quoted {request : Request}
    (hreading : request.reading = .quoted quote) :
    request.fragment = quote.unquote (request.lineFrom (request.position + 1)) := by
  rw [fragment, hreading]
  cases quote <;> rfl

theorem getLast?_words_ofLine_quoted (hfront : EndsInGap front)
    (hstarts : (tokenize (quote.char :: body)).starts = [0]) :
    (Request.ofLine command (front ++ quote.char :: body)).words.getLast? =
      (tokenize (quote.char :: body)).words.getLast? := by
  have hne : (tokenize (quote.char :: body)).words ≠ [] := by
    rw [← List.length_pos_iff, length_words_tokenize, hstarts]
    simp
  simp [Request.ofLine, tokenize_append hfront, List.getLast?_eq_some_getLast hne]

end Quoted

/-- Where an argument begins with a quote, and the line does not end in one, the path that is
completed is read from the raw text behind the quote. It is the last word of the line exactly if
that text leaves the quote open. -/
theorem fragment_eq_last_word_iff (text : Text) (quote : Quote)
    (hreading : (parseLine text).2.reading = .quoted quote)
    (hstop : (parseLine text).2.stopsAtQuote = false) :
    let request := (parseLine text).2
    (∀ context : Context, context.pathTarget request =
      ⟨context.pathTask request request.fragment, request.pathStart⟩) ∧
    (request.words.getLast? = some request.fragment ↔
      leavesOpen quote (request.lineFrom (request.position + 1)) = true) := by
  intro request
  refine ⟨fun context => by rw [Context.pathTarget, hstop]; rfl, ?_⟩
  obtain ⟨front, body, hline, hfront, hstart, hstarts⟩ := exists_quoted_split hreading
  have hrequest : request = Request.ofLine (Command.ofName (commandName (commandBody text)))
      (front ++ quote.char :: body) := by rw [← hline]; rfl
  rw [hline] at hstart
  have hfragment : request.fragment =
      quote.unquote (request.lineFrom (request.position + 1)) :=
    Request.fragment_of_quoted hreading
  rw [hfragment, hrequest, lineFrom_ofLine_quoted _ hstart,
    getLast?_words_ofLine_quoted _ hfront hstarts]
  exact Quote.getLast_words_iff hstarts

/-- A quoted word that is still open, and one that goes on behind its quote. -/
theorem fragment_eq_last_word_iff_behind :
    (parseLine "edit 'a b".toList).2.fragment = "a b".toList ∧
      (parseLine "edit 'a b".toList).2.words.getLast? = some "a b".toList ∧
      (parseLine "edit 'a'b".toList).2.fragment = "a'b".toList ∧
      (parseLine "edit 'a'b".toList).2.words.getLast? ≠ some "a'b".toList := by
  obtain ⟨-, hopen⟩ :=
    fragment_eq_last_word_iff "edit 'a b".toList .single (by decide) (by decide)
  obtain ⟨-, hclosed⟩ :=
    fragment_eq_last_word_iff "edit 'a'b".toList .single (by decide) (by decide)
  exact ⟨by decide, hopen.mpr (by decide), by decide, fun h => absurd (hclosed.mp h) (by decide)⟩

/-- Behind a quote that is closed, what is completed is not the word that is typed. -/
theorem not_fragment_eq_last_word :
    ¬∀ (text : Text) (quote : Quote), (parseLine text).2.reading = .quoted quote →
      (parseLine text).2.stopsAtQuote = false →
      (parseLine text).2.words.getLast? = some (parseLine text).2.fragment := by
  intro h
  exact absurd (h "edit 'a'b".toList .single (by decide) (by decide)) (by decide)

end PaneCompletion
