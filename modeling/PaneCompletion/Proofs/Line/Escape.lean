import PaneCompletion.Line.Escape
import PaneCompletion.Proofs.Line.Request
import PaneCompletion.Proofs.Text.Letter
import PaneCompletion.Proofs.Text.Pieces

/-!
# Escaped names read back

`Escape.shell` writes names for the word reader, and here is what the reader makes of them. A name
is read back as it was, one that begins with a dash behind `./` (`guarded`), whether a word is
already under way (`run_shell`) or the name begins one (`tokenize_shell`). Nothing it writes looks
like a space at the end of the line, a quote or a gap, so names that single spaces set apart are
read back one by one, and the line they make is a request for the last of them.

1. what one character is written as;
2. reading one name;
3. reading a line of names;
4. the request of such a line.
-/

namespace PaneCompletion

open Token Token.Reader

namespace Escape

/-! ## What one character is written as -/

/-- A character is written behind a backslash, unless it means nothing to the reader. -/
theorem shellChar_cases (c : Char) :
    shellChar false c = ['\\', c] ∨ shellChar false c = [c] ∧ Ordinary c := by
  by_cases hpercent : c = '%'
  · subst hpercent
    exact .inr ⟨rfl, by simp [Ordinary, isQuote]⟩
  · by_cases hspecial : special.contains c = true
    · exact .inl (by simp only [shellChar, if_neg hpercent, if_pos hspecial])
    · refine .inr ⟨by simp only [shellChar, if_neg hpercent, if_neg hspecial], ?_⟩
      simp only [special, List.contains_eq_mem, List.mem_cons, List.not_mem_nil, or_false,
        not_or, decide_eq_true_eq] at hspecial
      simp [Ordinary, isQuote, hspecial]

/-- The name as it is read back: one that begins with a dash comes behind `./`. -/
def guarded (name : Text) : Text :=
  if Text.startsWith name ['-'] then ['.', '/'] ++ name else name

theorem guarded_dash (rest : Text) : guarded ('-' :: rest) = '.' :: '/' :: '-' :: rest := rfl

theorem guarded_cons {c : Char} (hdash : c ≠ '-') (rest : Text) :
    guarded (c :: rest) = c :: rest := by
  simp [guarded, Text.startsWith, hdash.symm]

/-- What is written for a name begins no gap, no quotes and no second word. -/
theorem shell_eq_cons {name : Text} (hne : name ≠ []) :
    ∃ c rest, shell name = c :: rest ∧ ¬Separates c ∧ isQuote c = false := by
  obtain ⟨c, rest, rfl⟩ := List.exists_cons_of_ne_nil hne
  simp only [shell, shellFirst]
  split_ifs
  · exact ⟨'.', _, rfl, by decide, rfl⟩
  · exact ⟨'\\', _, rfl, by decide, rfl⟩
  · rcases shellChar_cases c with h | ⟨h, hgap, -, hquote⟩
    · exact ⟨'\\', _, by rw [h]; rfl, by decide, rfl⟩
    · exact ⟨c, _, by rw [h]; rfl, hgap, hquote⟩

end Escape

/-! ## Reading one name -/

namespace Token.Reader

theorem run_shellChar {r : Reader} (hbare : r.mode = .bare) (c : Char) :
    r.run (Escape.shellChar false c) = r.took (Escape.shellChar false c) [c] := by
  rcases Escape.shellChar_cases c with h | ⟨h, hc⟩
  · rw [h, run_backslash hbare]
  · rw [h, run_cons, step_ordinary hbare hc, run_nil]

theorem run_shellChars {r : Reader} (hbare : r.mode = .bare) (name : Text) :
    r.run (name.flatMap (Escape.shellChar false)) =
      r.took (name.flatMap (Escape.shellChar false)) name := by
  induction name generalizing r with
  | nil => simp [took]
  | cons c rest ih =>
    have htook : (r.took (Escape.shellChar false c) [c]).mode = .bare := hbare
    rw [List.flatMap_cons, run_append, run_shellChar hbare, ih htook, took_took]
    rfl

/-- What is written for the first character is read back as that character, guarded. -/
theorem run_shellFirst {r : Reader} (hbare : r.mode = .bare) (c : Char) :
    r.run (Escape.shellFirst false c) =
      r.took (Escape.shellFirst false c) (Escape.guarded [c]) := by
  by_cases hdash : c = '-'
  · subst hdash
    simp [Escape.shellFirst, Escape.guarded_dash, step, hbare, bareStep, move, took]
  · rw [Escape.guarded_cons hdash]
    by_cases htilde : c = '~'
    · subst htilde
      exact run_backslash hbare '~'
    · simp only [Escape.shellFirst, if_neg hdash, if_neg htilde]
      exact run_shellChar hbare c

/-- Inside a word a written name takes the word on by the name. -/
theorem run_shell {r : Reader} (hbare : r.mode = .bare) (name : Text) :
    r.run (Escape.shell name) = r.took (Escape.shell name) (Escape.guarded name) := by
  cases name with
  | nil => simp [Escape.shell, Escape.guarded, Text.startsWith, took]
  | cons c rest =>
    have hguarded : Escape.guarded (c :: rest) = Escape.guarded [c] ++ rest := by
      by_cases hdash : c = '-'
      · rw [hdash, Escape.guarded_dash, Escape.guarded_dash]
        rfl
      · rw [Escape.guarded_cons hdash, Escape.guarded_cons hdash]
        rfl
    have htook : (r.took (Escape.shellFirst false c) (Escape.guarded [c])).mode = .bare := hbare
    rw [Escape.shell, run_append, run_shellFirst hbare, run_shellChars htook, took_took, hguarded]

/-- Between words a written name is a word of its own. -/
theorem run_shell_of_gap {r : Reader} (hgap : r.mode = .gap) {name : Text} (hne : name ≠ []) :
    r.run (Escape.shell name) = r.opened.took (Escape.shell name) (Escape.guarded name) := by
  obtain ⟨c, rest, heq, hc, -⟩ := Escape.shell_eq_cons hne
  rw [heq, run_eq_opened hgap hc, ← heq, run_shell rfl]

end Token.Reader

theorem Token.tokenize_shell {name : Text} (hne : name ≠ []) :
    tokenize (Escape.shell name) = ⟨[Escape.guarded name], [0], none⟩ := by
  simp only [tokenize, run_shell_of_gap (r := start) rfl hne]
  rfl

/-! ## Reading a line of names -/

/-- A written name and a space after it end between words. -/
theorem Token.tokenize_shell_space {name : Text} (hne : name ≠ []) :
    EndsInGap (Escape.shell name ++ [' ']) ∧
      tokenize (Escape.shell name ++ [' ']) = ⟨[Escape.guarded name], [0], none⟩ := by
  have hrun : start.run (Escape.shell name ++ [' ']) =
      (start.opened.took (Escape.shell name) (Escape.guarded name)).step ' ' := by
    rw [run_append, run_shell_of_gap rfl hne]
    rfl
  exact ⟨by rw [EndsInGap, hrun]; rfl, by simp only [tokenize, hrun]; rfl⟩

/-- Names that single spaces set apart are read one by one. -/
theorem Token.tokenize_joined_shell {names : List Text} (hnames : ∀ name ∈ names, name ≠ []) :
    tokenize (Text.joined [' '] (names.map (Escape.shell ·))) =
      { words := names.map Escape.guarded
        starts := Text.beginnings (names.map (Escape.shell ·))
        quote := none } := by
  induction names with
  | nil => rfl
  | cons name more ih =>
    have hname := hnames name (by simp)
    cases more with
    | nil => exact tokenize_shell hname
    | cons next rest =>
      obtain ⟨hgap, hread⟩ := tokenize_shell_space hname
      rw [List.map_cons, Text.joined_cons _ _ (by simp), tokenize_append hgap, hread,
        ih (fun n hn => hnames n (by simp [hn])), List.length_append]
      rfl

theorem Token.endsInSpace_ordinary {c : Char} (hc : Ordinary c) (rest : Text) :
    endsInSpace (c :: rest) = endsInSpace rest := by
  cases rest with
  | nil => simpa [endsInSpace] using fun h : c = ' ' => hc.1 (.inl h)
  | cons d rest => rw [endsInSpace, if_neg hc.2.1]

theorem Token.endsInSpace_shellChar (c : Char) (rest : Text) :
    endsInSpace (Escape.shellChar false c ++ rest) = endsInSpace rest := by
  rcases Escape.shellChar_cases c with h | ⟨h, hc⟩
  · rw [h]
    rfl
  · rw [h, List.singleton_append, endsInSpace_ordinary hc]

/-- A written name never looks like a space at the end of a line, even if it ends in one. -/
theorem Token.endsInSpace_shell (name rest : Text) :
    endsInSpace (Escape.shell name ++ rest) = endsInSpace rest := by
  have hchars : ∀ chars : Text,
      endsInSpace (chars.flatMap (Escape.shellChar false) ++ rest) = endsInSpace rest := by
    intro chars
    induction chars with
    | nil => rfl
    | cons c more ih =>
      rw [List.flatMap_cons, List.append_assoc, endsInSpace_shellChar, ih]
  have hfirst : ∀ (c : Char) (more : Text),
      endsInSpace (Escape.shellFirst false c ++ more) = endsInSpace more := by
    intro c more
    unfold Escape.shellFirst
    split_ifs
    · cases more <;> rfl
    · rfl
    · exact endsInSpace_shellChar c more
  cases name with
  | nil => rfl
  | cons c more => rw [Escape.shell, List.append_assoc, hfirst, hchars]

theorem Token.endsInSpace_joined_shell {names : List Text} (hnames : ∀ name ∈ names, name ≠ []) :
    endsInSpace (Text.joined [' '] (names.map (Escape.shell ·))) = false := by
  induction names with
  | nil => rfl
  | cons name more ih =>
    cases more with
    | nil => simpa [Text.joined, endsInSpace] using endsInSpace_shell name []
    | cons next rest =>
      have hmore := ih (fun n hn => hnames n (by simp [hn]))
      rw [List.map_cons, Text.joined_cons _ _ (by simp), List.append_assoc, endsInSpace_shell]
      cases hjoined : Text.joined [' '] ((next :: rest).map (Escape.shell ·)) with
      | nil =>
        have hshell : ∀ t ∈ (next :: rest).map (Escape.shell ·), t ≠ [] := by
          intro t ht
          obtain ⟨n, hn, rfl⟩ := List.mem_map.mp ht
          obtain ⟨c, r, heq, -⟩ := Escape.shell_eq_cons (hnames n (List.mem_cons_of_mem _ hn))
          simp [heq]
        exact absurd hjoined (Text.joined_ne_nil (by simp) hshell)
      | cons c r =>
        rw [hjoined] at hmore
        exact hmore

/-! ## The request of such a line -/

/-- A command name of ASCII letters and digits is cut off in front of a space. -/
theorem commandName_append_space {c : Char} {rest : Text} (hc : c.isAlpha = true)
    (hrest : ∀ d ∈ rest, d.isAlphanum = true) (line : Text) :
    commandName (c :: rest ++ ' ' :: line) = c :: rest := by
  have hname : ∀ d ∈ c :: rest, Text.isLetterOrNumber d = true := by
    intro d hd
    rcases List.mem_cons.mp hd with rfl | hd
    · exact Text.isLetterOrNumber_of_isAlphanum (by simp [Char.isAlphanum, hc])
    · exact Text.isLetterOrNumber_of_isAlphanum (hrest d hd)
  have hspace : Text.isLetterOrNumber ' ' = false := by decide
  rw [List.cons_append, commandName, if_pos (Text.isLetter_of_isAlpha hc), ← List.cons_append,
    List.takeWhile_append_of_pos hname, List.takeWhile_cons_of_neg (by simp [hspace]),
    List.append_nil]

theorem exists_joined_shell_eq_cons {names : List Text} (hne : names ≠ [])
    (hnames : ∀ name ∈ names, name ≠ []) :
    ∃ c rest, Text.joined [' '] (names.map (Escape.shell ·)) = c :: rest ∧ ¬Separates c := by
  obtain ⟨name, more, rfl⟩ := List.exists_cons_of_ne_nil hne
  obtain ⟨c, rest, heq, hc, -⟩ := Escape.shell_eq_cons (hnames name (by simp))
  cases more with
  | nil => exact ⟨c, rest, heq, hc⟩
  | cons next others =>
    rw [List.map_cons, Text.joined_cons _ _ (by simp), heq]
    exact ⟨c, _, rfl, hc⟩

theorem skipSpaces_space_joined_shell {names : List Text} (hne : names ≠ [])
    (hnames : ∀ name ∈ names, name ≠ []) :
    Text.skipSpaces (' ' :: Text.joined [' '] (names.map (Escape.shell ·))) =
      Text.joined [' '] (names.map (Escape.shell ·)) := by
  obtain ⟨first, more, hfirst, hgap⟩ := exists_joined_shell_eq_cons hne hnames
  have hspace : first ≠ ' ' := fun h => hgap (.inl h)
  rw [hfirst, Text.skipSpaces, List.dropWhile_cons_of_pos (by simp),
    List.dropWhile_cons_of_neg (by simpa using hspace)]

theorem commandBody_of_isAlpha {c : Char} (hc : c.isAlpha = true) (rest : Text) :
    commandBody (c :: rest) = c :: rest := by
  have hcolon : c ≠ ':' := by
    rintro rfl
    simp at hc
  have hblank : c ≠ ' ' := by
    rintro rfl
    simp at hc
  exact List.dropWhile_cons_of_neg (by simp [hcolon, hblank])

/-- The argument that is completed is the last name, from where it was written. -/
theorem argumentStart_joined_shell {names : List Text} (hne : names ≠ [])
    (hnames : ∀ name ∈ names, name ≠ []) :
    let written := names.map (Escape.shell ·)
    argumentStart (Text.joined [' '] written) = (Text.beginnings written).getLastD 0 ∧
      readingOf ((Text.joined [' '] written).drop (argumentStart (Text.joined [' '] written))) =
        .plain := by
  intro written
  have hwritten : written ≠ [] := by simpa [written] using hne
  obtain ⟨front, hline, hlast⟩ := Text.exists_joined_eq_append hwritten ' '
  have hbegin : (tokenize (Text.joined [' '] written)).starts.getLast? = some front.length := by
    rw [Token.tokenize_joined_shell hnames]
    exact hlast
  have hstart : argumentStart (Text.joined [' '] written) = front.length :=
    argumentStart_of_word (Token.endsInSpace_joined_shell hnames) hbegin
  refine ⟨by rw [hstart, List.getLastD_eq_getLast?, hlast]; rfl, ?_⟩
  -- what is written for a name begins with no quote
  obtain ⟨name, hname, hwrote⟩ := List.mem_map.mp (List.getLast_mem hwritten)
  obtain ⟨d, tail, heq, -, hquote⟩ := Escape.shell_eq_cons (hnames name hname)
  rw [hstart, hline, List.drop_left, ← hwrote, heq]
  exact readingOf_plain (by simpa using hquote)

/-- A line of written names after a command name is a request for the last of them, with the names
as its words. -/
theorem parseLine_joined_shell (c : Char) (rest : Text) (names : List Text)
    (hc : c.isAlpha = true) (hrest : ∀ d ∈ rest, d.isAlphanum = true) (hne : names ≠ [])
    (hnames : ∀ name ∈ names, name ≠ []) :
    let written := names.map (Escape.shell ·)
    let line := Text.joined [' '] written
    parseLine (c :: rest ++ ' ' :: line) =
        (c :: rest,
          { line
            command := Command.ofName (c :: rest)
            position := ((Text.beginnings written).getLastD 0 : Nat)
            words := names.map Escape.guarded
            reading := .plain }) ∧
      tokenize line = ⟨names.map Escape.guarded, Text.beginnings written, none⟩ := by
  intro written line
  have htokens : tokenize line = ⟨names.map Escape.guarded, Text.beginnings written, none⟩ :=
    Token.tokenize_joined_shell hnames
  obtain ⟨hstart, hreading⟩ := argumentStart_joined_shell hne hnames
  refine ⟨?_, htokens⟩
  rw [parseLine_eq, argumentText, List.cons_append, commandBody_of_isAlpha hc, ← List.cons_append,
    commandName_append_space hc hrest, List.drop_left, skipSpaces_space_joined_shell hne hnames,
    Request.ofLine, hreading, hstart, htokens]

theorem parseLine_joined_shell_quote :
    parseLine "edit it\\'s a\\ \\\\".toList =
      ("edit".toList,
        { line := "it\\'s a\\ \\\\".toList
          position := 6
          words := ["it's".toList, "a \\".toList] }) :=
  (parseLine_joined_shell 'e' "dit".toList ["it's".toList, "a \\".toList] (by decide)
    (by simp) (by decide) (by simp)).1

end PaneCompletion
