import PaneCompletion.Proofs.Line.Request

/-!
# Inside open quotes

The last argument of a line may be a quoted text whose quote is still open (`OpenArgument`). What
is put in there is read by the rules of the quote, not of the line: inside single quotes a single
quote ends the text or stands doubled for one, inside double quotes a backslash takes the next
character and a double quote ends the text.

`words_splice_quoted` says what becomes of a name that is put in as it is: it is read back as
itself exactly if it holds no character that means something inside the quote (`Quote.Keeps`). One
direction reads the name character by character. The other counts: a character makes the last word
longer by one at most (`lastLength_run_le`), and the first one with a meaning does not.

1. texts inside a quote;
2. reading up to a slash;
3. how fast a word grows;
4. reading a name;
5. a name in place of the end of a line.
-/

namespace PaneCompletion

open Token Token.Reader

namespace Token

/-! ## Texts inside a quote -/

/-- Whether a text behind an opening quote leaves it open. -/
def leavesOpen : Quote → Text → Bool
  | _, [] => true
  | .single, [c] => c ≠ '\''
  | .single, c :: d :: rest =>
    if c = '\'' then d = '\'' && leavesOpen .single rest else leavesOpen .single (d :: rest)
  | .double, [c] => c ≠ '"'
  | .double, c :: d :: rest =>
    if c = '\\' then leavesOpen .double rest else c ≠ '"' && leavesOpen .double (d :: rest)

end Token

namespace Quote

/-- The reader's mode inside a quote. -/
def mode : Quote → Mode
  | .single => .single
  | .double => .double

/-- The value of a text inside a quote. -/
def unquote : Quote → Text → Text
  | .single => unquoteSingle
  | .double => unquoteDouble

/-- A name that holds nothing with a meaning inside a quote. A backslash at the end means nothing,
since nothing follows that it could take. -/
def Keeps : Quote → Text → Prop
  | .single, name => '\'' ∉ name
  | .double, name => '"' ∉ name ∧ '\\' ∉ name.dropLast

instance (quote : Quote) (name : Text) : Decidable (quote.Keeps name) :=
  match quote with
  | .single => inferInstanceAs (Decidable ('\'' ∉ name))
  | .double => inferInstanceAs (Decidable ('"' ∉ name ∧ '\\' ∉ name.dropLast))

theorem keeps_double_cons {c : Char} (hc : c ≠ '\\') (rest : Text) :
    Keeps .double (c :: rest) ↔ c ≠ '"' ∧ Keeps .double rest := by
  have hlast : '\\' ∈ (c :: rest).dropLast ↔ '\\' ∈ rest.dropLast := by
    cases rest with
    | nil => simp
    | cons d more =>
      rw [List.dropLast_cons_of_ne_nil (by simp), List.mem_cons]
      exact or_iff_right hc.symm
  simp only [Keeps, hlast, List.mem_cons, not_or, ne_eq, eq_comm (a := '"')]
  exact and_assoc

end Quote

/-- The last argument of a line begins at an offset with a quote that is open from there to the end
of the line. -/
structure OpenArgument (line : Text) (quote : Quote) (start : Nat) : Prop where
  start_last : (tokenize line).starts.getLast? = some start
  quote_open : (tokenize line).quote = some quote
  quote_first : (line.drop start).head? = some quote.char
  unclosed : leavesOpen quote (line.drop (start + 1)) = true

namespace Token.Reader

/-! ## Reading up to a slash -/

theorem step_single {r : Reader} (hmode : r.mode = .single) {c : Char} (hc : c ≠ '\'') :
    r.step c = r.took [c] [c] := by
  simp only [step, hmode, if_neg hc]
  simp [move, took, hmode]

theorem run_doubled_quote {r : Reader} (hmode : r.mode = .single) :
    r.run ['\'', '\''] = r.took ['\'', '\''] ['\''] := by
  simp [step, hmode, move, took]

theorem step_double {r : Reader} (hmode : r.mode = .double) {c : Char} (hslash : c ≠ '\\')
    (hquote : c ≠ '"') : r.step c = r.took [c] [c] := by
  simp only [step, hmode, if_neg hslash, if_neg hquote]
  simp [move, took, hmode]

theorem run_escaped {r : Reader} (hmode : r.mode = .double) (c : Char) :
    r.run ['\\', c] = r.took ['\\', c] [escaped c] := by
  simp [step, hmode, move, took]

theorem unquoteSingle_cons {c : Char} (hc : c ≠ '\'') (text : Text) :
    unquoteSingle (c :: text) = c :: unquoteSingle text := by
  rw [unquoteSingle]
  exact fun _ h _ => hc h

theorem unquoteDouble_cons {c : Char} (hc : c ≠ '\\') (text : Text) :
    unquoteDouble (c :: text) = c :: unquoteDouble text := by
  cases text with
  | nil => rfl
  | cons d rest => rw [unquoteDouble, if_neg hc]

/-- Up to a slash a text in single quotes has been taken on by its value. -/
theorem run_single_to_slash : ∀ (front : Text) {rest : Text} {r : Reader},
    leavesOpen .single (front ++ '/' :: rest) = true → r.mode = .single →
    r.run (front ++ ['/']) = r.took (front ++ ['/']) (unquoteSingle (front ++ ['/']))
  | [], rest, r, _, hmode => by
    rw [List.nil_append, run_cons, step_single hmode (by decide)]
    rfl
  | [c], rest, r, hopen, hmode => by
    have hc : c ≠ '\'' := by
      rintro rfl
      simp [leavesOpen] at hopen
    have hslash : (r.took [c] [c]).run ['/'] = (r.took [c] [c]).took ['/'] ['/'] :=
      step_single (r := r.took [c] [c]) hmode (by decide)
    rw [List.singleton_append, run_cons, step_single hmode hc, hslash, took_took,
      unquoteSingle_cons hc]
    rfl
  | c :: d :: front, rest, r, hopen, hmode => by
    simp only [List.cons_append, leavesOpen] at hopen
    split_ifs at hopen with hc
    · obtain ⟨hd, hopen⟩ : d = '\'' ∧ leavesOpen .single (front ++ '/' :: rest) = true := by
        simpa using hopen
      subst hc hd
      have hrun : ∀ text, r.run ('\'' :: '\'' :: text) = (r.took ['\'', '\''] ['\'']).run text := by
        intro text
        rw [← run_doubled_quote hmode, ← run_append]
        rfl
      rw [List.cons_append, List.cons_append, hrun,
        run_single_to_slash front (r := r.took _ _) hopen hmode, took_took, unquoteSingle]
      rfl
    · rw [List.cons_append, run_cons, step_single hmode hc,
        run_single_to_slash (d :: front) (r := r.took _ _) hopen hmode, took_took,
        unquoteSingle_cons hc]
      rfl

/-- Up to a slash a text in double quotes has been taken on by its value. -/
theorem run_double_to_slash : ∀ (front : Text) {rest : Text} {r : Reader},
    leavesOpen .double (front ++ '/' :: rest) = true → r.mode = .double →
    r.run (front ++ ['/']) = r.took (front ++ ['/']) (unquoteDouble (front ++ ['/']))
  | [], rest, r, _, hmode => by
    rw [List.nil_append, run_cons, step_double hmode (by decide) (by decide)]
    rfl
  | [c], rest, r, hopen, hmode => by
    by_cases hslash : c = '\\'
    · subst hslash
      exact run_escaped hmode '/'
    · have hquote : c ≠ '"' := by
        rintro rfl
        simp [leavesOpen] at hopen
      have hlast : (r.took [c] [c]).run ['/'] = (r.took [c] [c]).took ['/'] ['/'] :=
        step_double (r := r.took [c] [c]) hmode (by decide) (by decide)
      rw [List.singleton_append, run_cons, step_double hmode hslash hquote, hlast, took_took,
        unquoteDouble_cons hslash]
      rfl
  | c :: d :: front, rest, r, hopen, hmode => by
    simp only [List.cons_append, leavesOpen] at hopen
    split_ifs at hopen with hslash
    · subst hslash
      have hrun : ∀ text, r.run ('\\' :: d :: text) = (r.took ['\\', d] [escaped d]).run text := by
        intro text
        rw [← run_escaped hmode, ← run_append]
        rfl
      rw [List.cons_append, List.cons_append, hrun,
        run_double_to_slash front (r := r.took _ _) hopen hmode, took_took, unquoteDouble,
        if_pos rfl]
      rfl
    · obtain ⟨hquote, hopen⟩ :
          c ≠ '"' ∧ leavesOpen .double (d :: (front ++ '/' :: rest)) = true := by
        simpa using hopen
      rw [List.cons_append, run_cons, step_double hmode hslash hquote,
        run_double_to_slash (d :: front) (r := r.took _ _) hopen hmode, took_took,
        unquoteDouble_cons hslash]
      rfl

theorem run_quoted_to_slash {quote : Quote} {front rest : Text} {r : Reader}
    (hopen : leavesOpen quote (front ++ '/' :: rest) = true) (hmode : r.mode = quote.mode) :
    r.run (front ++ ['/']) = r.took (front ++ ['/']) (quote.unquote (front ++ ['/'])) := by
  cases quote with
  | single => exact run_single_to_slash front hopen hmode
  | double => exact run_double_to_slash front hopen hmode

/-! ## How fast a word grows -/

/-- The length of the last word as far as it has been read. -/
def lastLength (r : Reader) : Nat :=
  match r.mode with
  | .gap => (r.words.getLast?.getD []).length
  | .bareEscape | .doubleEscape => r.value.length + 1
  | _ => r.value.length

theorem length_eq_lastLength {r : Reader} {word : Text} (h : r.allWords.getLast? = some word) :
    word.length = r.lastLength := by
  have hlast : (r.allWords.getLast?.getD []).length = r.lastLength := by
    cases r with
    | mk offset words starts value mode => cases mode <;> simp [allWords, lastLength]
  rwa [h] at hlast

theorem lastLength_step_le {r : Reader} (h : r.Consistent) (c : Char) :
    (r.step c).lastLength ≤ r.lastLength + 1 := by
  have hvalue := h.value_gap
  cases r with
  | mk offset words starts value mode =>
    cases mode <;> simp only [step, bareStep, move] <;> (try split_ifs) <;>
      simp_all [lastLength]

theorem lastLength_run_le {r : Reader} (h : r.Consistent) (text : Text) :
    (r.run text).lastLength ≤ r.lastLength + text.length := by
  induction text generalizing r with
  | nil => exact Nat.le_refl _
  | cons c rest ih =>
    have hstep := lastLength_step_le h c
    have hrest := ih (h.step c)
    rw [run_cons, List.length_cons]
    omega

/-! ## Reading a name -/

theorem run_of_keeps_single {r : Reader} (hmode : r.mode = .single) {name : Text}
    (hname : '\'' ∉ name) : r.run name = r.took name name := by
  induction name generalizing r with
  | nil => simp [took]
  | cons c rest ih =>
    obtain ⟨hc, hrest⟩ : '\'' ≠ c ∧ '\'' ∉ rest := by simpa using hname
    rw [run_cons, step_single hmode hc.symm, ih (r := r.took [c] [c]) hmode hrest, took_took]
    rfl

theorem allWords_run_of_keeps_double {r : Reader} (hmode : r.mode = .double) {name : Text}
    (hname : Quote.double.Keeps name) :
    (r.run name).allWords = r.words ++ [r.value ++ name] := by
  induction name generalizing r with
  | nil => simp [allWords, hmode]
  | cons c rest ih =>
    by_cases hback : c = '\\'
    · -- a backslash is kept at the end alone
      have hnil : rest = [] := by
        by_contra hne
        have hlast := hname.2
        rw [List.dropLast_cons_of_ne_nil hne, hback] at hlast
        simp at hlast
      subst hback hnil
      simp [step, hmode, move, allWords]
    · obtain ⟨hquote, hrest⟩ := (Quote.keeps_double_cons hback rest).mp hname
      rw [run_cons, step_double hmode hback hquote, ih (r := r.took [c] [c]) hmode hrest]
      simp [took]

theorem lastLength_run_of_mem_single {r : Reader} (h : r.Consistent) (hmode : r.mode = .single)
    {name : Text} (hname : '\'' ∈ name) :
    (r.run name).lastLength < r.value.length + name.length := by
  obtain ⟨front, rest, rfl, hfront⟩ := List.eq_append_cons_of_mem hname
  have htook := run_of_keeps_single hmode hfront
  have hread : r.run (front ++ '\'' :: rest) = ((r.took front front).step '\'').run rest := by
    rw [run_append, htook, run_cons]
  have hconsistent : (r.took front front).Consistent := htook ▸ h.run front
  have hquote : ((r.took front front).step '\'').lastLength = r.value.length + front.length := by
    simp [step, took, hmode, move, lastLength]
  have hrest := lastLength_run_le (hconsistent.step '\'') rest
  rw [hread, List.length_append, List.length_cons]
  omega

theorem lastLength_run_of_not_keeps_double {r : Reader} (h : r.Consistent)
    (hmode : r.mode = .double) {name : Text} (hname : ¬Quote.double.Keeps name) :
    (r.run name).lastLength < r.value.length + name.length := by
  induction name generalizing r with
  | nil => simp [Quote.Keeps] at hname
  | cons c rest ih =>
    by_cases hquote : c = '"'
    · have hstep : (r.step c).lastLength = r.value.length := by
        simp [step, hmode, hquote, move, lastLength]
      have hrest := lastLength_run_le (h.step c) rest
      rw [run_cons, List.length_cons]
      omega
    · by_cases hback : c = '\\'
      · subst hback
        cases rest with
        | nil => simp [Quote.Keeps] at hname
        | cons d more =>
          have hread : r.run ('\\' :: d :: more) = (r.took ['\\', d] [escaped d]).run more := by
            rw [← run_escaped hmode, ← run_append]
            rfl
          have hconsistent : (r.took ['\\', d] [escaped d]).Consistent :=
            run_escaped hmode d ▸ h.run ['\\', d]
          have hmore := lastLength_run_le hconsistent more
          have htook : (r.took ['\\', d] [escaped d]).lastLength = r.value.length + 1 := by
            simp [took, lastLength, hmode]
          rw [hread, List.length_cons, List.length_cons]
          omega
      · have hstep := step_double hmode hback hquote
        have hconsistent : (r.took [c] [c]).Consistent := hstep ▸ h.step c
        have hrest := ih hconsistent hmode
          (fun hkeeps => hname ((Quote.keeps_double_cons hback rest).mpr ⟨hquote, hkeeps⟩))
        have htook : (r.took [c] [c]).value.length = r.value.length + 1 := by simp [took]
        rw [run_cons, hstep, List.length_cons]
        omega

/-- A name that is put inside a quote is read back as itself exactly if nothing in it has a
meaning there. -/
theorem getLast_allWords_run_iff_keeps {quote : Quote} {r : Reader} (h : r.Consistent)
    (hmode : r.mode = quote.mode) (name : Text) :
    (r.run name).allWords.getLast? = some (r.value ++ name) ↔ quote.Keeps name := by
  constructor
  · intro hlast
    have hlength := length_eq_lastLength hlast
    rw [List.length_append] at hlength
    by_contra hname
    cases quote with
    | single =>
      have hmem : '\'' ∈ name := by simpa [Quote.Keeps] using hname
      have hshort := lastLength_run_of_mem_single h hmode hmem
      omega
    | double =>
      have hshort := lastLength_run_of_not_keeps_double h hmode hname
      omega
  · intro hname
    cases quote with
    | single =>
      rw [run_of_keeps_single hmode hname]
      simp [allWords, took, hmode, Quote.mode]
    | double =>
      rw [allWords_run_of_keeps_double hmode hname]
      simp

theorem run_quote_char {r : Reader} (hgap : r.mode = .gap) (quote : Quote) :
    r.run [quote.char] = r.opened.move quote.mode r.value := by
  cases quote <;> simp [step, hgap, bareStep, move, opened, Quote.char, Quote.mode]

end Token.Reader

/-! ## A name in place of the end of a line -/

/-- An open argument is all that follows the words in front of it. -/
theorem OpenArgument.exists_split {line : Text} {quote : Quote} {start : Nat}
    (h : OpenArgument line quote start) :
    ∃ a body, line = a ++ quote.char :: body ∧ EndsInGap a ∧ a.length = start ∧
      leavesOpen quote body = true := by
  have hnone : (tokenize line).starts ≠ [] := by
    intro hnil
    have hlast := h.start_last
    simp [hnil] at hlast
  obtain ⟨a, b, rfl, ha, hb⟩ := exists_last_word line hnone
  have hlength : a.length = start := by
    have hlast := h.start_last
    rw [tokenize_append ha, hb] at hlast
    simpa using hlast
  have hfirst := h.quote_first
  have hopen := h.unclosed
  subst hlength
  rw [List.drop_left] at hfirst
  cases b with
  | nil => simp at hfirst
  | cons c body =>
    obtain rfl : c = quote.char := by simpa using hfirst
    rw [List.append_cons, List.drop_left' (by simp)] at hopen
    exact ⟨a, body, rfl, ha, rfl, hopen⟩

/-- Behind the opening quote, or behind a slash in the quoted text, the reader has the value of what
was typed, and is inside the quote. -/
theorem getLast_words_append_iff_keeps {a : Text} (ha : EndsInGap a) {quote : Quote}
    {typed : Text} (htyped : ∀ r : Reader, r.mode = quote.mode →
      r.run typed = r.took typed (quote.unquote typed)) (name : Text) :
    (tokenize (a ++ quote.char :: typed ++ name)).words.getLast? =
      some (quote.unquote typed ++ name) ↔ quote.Keeps name := by
  have hread : start.run (a ++ quote.char :: typed) =
      ((start.run a).opened.move quote.mode []).took typed (quote.unquote typed) := by
    have hvalue := (consistent_run a).value_gap ha
    rw [run_append, ← List.singleton_append, run_append, run_quote_char ha, hvalue]
    exact htyped _ rfl
  have hmode : (start.run (a ++ quote.char :: typed)).mode = quote.mode := by
    rw [hread]
    rfl
  have hiff := getLast_allWords_run_iff_keeps (consistent_run (a ++ quote.char :: typed)) hmode name
  rw [← run_append] at hiff
  have hvalue : (start.run (a ++ quote.char :: typed)).value = quote.unquote typed := by
    rw [hread]
    rfl
  rwa [hvalue] at hiff

/-- In a line that ends inside an open argument a name in place of all from the splice offset on is
read back, behind the value of what was typed of the argument in front of the offset, exactly if
nothing in it has a meaning inside the quote. -/
theorem words_splice_quoted (command : Command) {line : Text} {quote : Quote} {start : Nat}
    (h : OpenArgument line quote start) (hspace : endsInSpace line = false) (name : Text) :
    (Request.ofLine command line).reading = .quoted quote ∧
      ∃ cut : Nat, (Request.ofLine command line).pathStart = cut ∧ cut ≤ line.length ∧
        ((tokenize (line.take cut ++ name)).words.getLast? =
          some (quote.unquote ((line.take cut).drop (start + 1)) ++ name) ↔ quote.Keeps name) := by
  have hstart : argumentStart line = start := argumentStart_of_word hspace h.start_last
  obtain ⟨a, body, rfl, ha, rfl, hopen⟩ := h.exists_split
  have hreading : (Request.ofLine command (a ++ quote.char :: body)).reading = .quoted quote := by
    rw [Request.ofLine, hstart, List.drop_left, readingOf_quote]
  have hslash := Request.slash?_ofLine_append command hstart
  refine ⟨hreading, ?_⟩
  cases hlast : Text.lastIndex? '/' (quote.char :: body) with
  | none =>
    have htake : (a ++ quote.char :: body).take (a.length + 1) = a ++ [quote.char] := by
      rw [List.append_cons, List.take_left' (by simp)]
    refine ⟨a.length + 1, ?_, by simp, ?_⟩
    · rw [Request.pathStart, hslash, hlast, hreading, ← hstart]
      rfl
    · rw [htake, List.drop_eq_nil_of_le (by simp)]
      have hempty : quote.unquote [] = [] := by cases quote <;> rfl
      exact getLast_words_append_iff_keeps ha (fun r _ => by simp [took, hempty]) name
  | some i =>
    obtain ⟨front, rest, heq, rfl, -⟩ := Text.exists_of_lastIndex? hlast
    cases front with
    | nil =>
      have hne : quote.char ≠ '/' := by cases quote <;> decide
      exact absurd (List.cons.inj heq).1 hne
    | cons c front =>
      have hbody : body = front ++ '/' :: rest := (List.cons.inj heq).2
      subst hbody
      have htake := Text.take_through a (quote.char :: front) '/' rest
      refine ⟨(quote.char :: front).length + a.length + 1, ?_, ?_, ?_⟩
      · rw [Request.pathStart, hslash, hlast, Option.map_some]
        rfl
      · simp
        omega
      · rw [← List.cons_append, htake, List.cons_append, List.append_cons a,
          List.drop_left' (by simp), ← List.append_cons a]
        exact getLast_words_append_iff_keeps ha
          (fun r hmode => run_quoted_to_slash hopen hmode) name

end PaneCompletion
