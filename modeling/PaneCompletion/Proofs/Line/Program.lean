import Mathlib.Data.List.TakeWhile
import PaneCompletion.Line.Request

/-!
# Programs and their arguments

The line of an external program is taken apart at a space, or behind the quotes that the program
stands in. Put together again with one space between them, the two are found again exactly where
that space is enough (`splitProgram_lineOf_iff`): a program with a space in it comes apart, and so
does one with a quote in front that is closed in what follows, since nothing is quoted again. The
other direction is a matter of length: out of quotes come fewer characters than one space adds
(`length_splitProgram_of_isQuoted`).

1. taking lines apart;
2. putting lines together.
-/

namespace PaneCompletion

/-! ## Taking lines apart -/

/-- The program of a line stands in quotes. -/
def IsQuoted (line : Text) : Prop := ∃ rest, Text.skipSpaces line = '"' :: rest ∧ '"' ∈ rest

theorem splitProgram_of_isQuoted {line rest : Text} (hline : Text.skipSpaces line = '"' :: rest)
    (hclosed : '"' ∈ rest) :
    splitProgram line = (rest.takeWhile (· ≠ '"'),
      Text.skipSpaces ((rest.dropWhile (· ≠ '"')).drop 1)) := by
  rw [splitProgram, hline]
  exact if_pos (List.contains_iff_mem.mpr hclosed)

theorem splitProgram_of_not_isQuoted {line : Text} (h : ¬IsQuoted line) :
    splitProgram line = ((Text.skipSpaces line).takeWhile (· ≠ ' '),
      Text.skipSpaces ((Text.skipSpaces line).dropWhile (· ≠ ' '))) := by
  rw [splitProgram]
  split
  · next rest hline =>
    have hopen : '"' ∉ rest := fun hclosed => h ⟨rest, hline, hclosed⟩
    rw [if_neg (by simpa using hopen)]
  · rfl

theorem head?_skipSpaces (text : Text) : (Text.skipSpaces text).head? ≠ some ' ' := by
  intro hhead
  have hspace := List.head?_dropWhile_not (· = ' ') text
  rw [← Text.skipSpaces, hhead] at hspace
  simp at hspace

theorem skipSpaces_of_head {text : Text} (h : text.head? ≠ some ' ') :
    Text.skipSpaces text = text := by
  cases text with
  | nil => rfl
  | cons c rest =>
    have hc : c ≠ ' ' := by simpa using h
    exact List.dropWhile_cons_of_neg (by simp [hc])

theorem head?_arguments (line : Text) : (splitProgram line).2.head? ≠ some ' ' := by
  by_cases hquoted : IsQuoted line
  · obtain ⟨rest, hline, hclosed⟩ := hquoted
    rw [splitProgram_of_isQuoted hline hclosed]
    exact head?_skipSpaces _
  · rw [splitProgram_of_not_isQuoted hquoted]
    exact head?_skipSpaces _

/-- What is taken out of quotes is shorter than the line by both of them. -/
theorem length_splitProgram_of_isQuoted {line : Text} (h : IsQuoted line) :
    (splitProgram line).1.length + (splitProgram line).2.length + 2 ≤ line.length := by
  obtain ⟨rest, hline, hclosed⟩ := h
  rw [splitProgram_of_isQuoted hline hclosed]
  have hbody : rest.length + 1 ≤ line.length := by
    have hlength := (List.dropWhile_suffix (l := line) (· = ' ')).length_le
    rw [← Text.skipSpaces, hline] at hlength
    exact hlength
  have hrest := congrArg List.length (List.takeWhile_append_dropWhile (p := (· ≠ '"')) (l := rest))
  have hquote : rest.dropWhile (· ≠ '"') ≠ [] := by
    intro hnone
    have hall := List.dropWhile_eq_nil_iff.mp hnone '"' hclosed
    simp at hall
  have hpositive := List.length_pos_iff.mpr hquote
  have harguments := (List.dropWhile_suffix (l := (rest.dropWhile (· ≠ '"')).drop 1)
    (· = ' ')).length_le
  rw [← Text.skipSpaces, List.length_drop] at harguments
  rw [List.length_append] at hrest
  dsimp only
  omega

/-! ## Putting lines together -/

/-- Arguments with a space in front of them, if there are any. -/
def spaced (arguments : Text) : Text := if arguments.isEmpty then [] else ' ' :: arguments

/-- The line of a program and its arguments, with one space between them. -/
def lineOf (program arguments : Text) : Text := program ++ spaced arguments

/-- A program and arguments between which one space is enough. -/
structure Separable (program arguments : Text) : Prop where
  no_space : ' ' ∉ program
  named : program = [] → arguments = []
  unquoted : ∀ rest, program = '"' :: rest → '"' ∉ rest ++ arguments

theorem spaced_eq (arguments : Text) :
    arguments = [] ∧ spaced arguments = [] ∨ spaced arguments = ' ' :: arguments := by
  rw [spaced]
  split
  · next hnone => exact .inl ⟨List.isEmpty_iff.mp hnone, rfl⟩
  · exact .inr rfl

theorem lineOf_eq (program arguments : Text) :
    lineOf program arguments =
      if arguments.isEmpty then program else program ++ ' ' :: arguments := by
  rw [lineOf, spaced]
  split
  · exact List.append_nil _
  · rfl

theorem length_spaced_le (arguments : Text) : (spaced arguments).length ≤ arguments.length + 1 := by
  obtain ⟨-, heq⟩ | heq := spaced_eq arguments <;> simp [heq]

/-- A name without quotes around it is told from its arguments. -/
theorem separable_splitProgram {line : Text} (h : ¬IsQuoted line) :
    Separable (splitProgram line).1 (splitProgram line).2 := by
  have hwhole := List.takeWhile_append_dropWhile (p := (· ≠ ' ')) (l := Text.skipSpaces line)
  rw [splitProgram_of_not_isQuoted h]
  refine ⟨fun hspace => ?_, fun hnil => ?_, fun rest hname hquote => ?_⟩
  · simpa using List.mem_takeWhile_imp hspace
  · dsimp only at hnil
    have hbody : Text.skipSpaces line = [] := by
      cases hline : Text.skipSpaces line with
      | nil => rfl
      | cons c more =>
        have hc : c ≠ ' ' := by
          rintro rfl
          exact head?_skipSpaces line (by rw [hline]; rfl)
        rw [hline, List.takeWhile_cons_of_pos (by simp [hc])] at hnil
        cases hnil
    rw [hbody]
    rfl
  · dsimp only at hname
    rw [hname, List.cons_append] at hwhole
    refine h ⟨_, hwhole.symm, ?_⟩
    rw [List.mem_append] at hquote ⊢
    exact hquote.imp_right fun hmem => (List.dropWhile_suffix _).subset hmem

theorem skipSpaces_append {program : Text} (hspace : ' ' ∉ program) (hne : program ≠ [])
    (text : Text) : Text.skipSpaces (program ++ text) = program ++ text := by
  obtain ⟨c, rest, rfl⟩ := List.exists_cons_of_ne_nil hne
  exact skipSpaces_of_head fun hc => hspace (Option.some.inj hc ▸ List.mem_cons_self)

/-- Behind a name without spaces and quotes its arguments are found again. -/
theorem splitProgram_append_spaced {program arguments : Text} (hspace : ' ' ∉ program)
    (hne : program ≠ []) (hquoted : ¬IsQuoted (program ++ spaced arguments))
    (harguments : arguments.head? ≠ some ' ') :
    splitProgram (program ++ spaced arguments) = (program, arguments) := by
  have hplain : ∀ c ∈ program, decide (c ≠ ' ') = true :=
    fun c hmem => decide_eq_true fun hc => hspace (hc ▸ hmem)
  rw [splitProgram_of_not_isQuoted hquoted, skipSpaces_append hspace hne,
    List.takeWhile_append_of_pos hplain, List.dropWhile_append_of_pos hplain]
  obtain ⟨rfl, heq⟩ | heq := spaced_eq arguments
  · rw [heq, List.takeWhile_nil, List.append_nil]
    rfl
  · rw [heq, List.takeWhile_cons_of_neg (by simp), List.dropWhile_cons_of_neg (by simp),
      List.append_nil]
    exact congrArg _ (skipSpaces_of_head harguments)

/-- A line is taken apart into what it was put together from if one space is enough. -/
theorem splitProgram_lineOf_iff {program arguments : Text} (h : arguments.head? ≠ some ' ') :
    splitProgram (lineOf program arguments) = (program, arguments) ↔
      Separable program arguments := by
  constructor
  · intro hsplit
    have hquoted : ¬IsQuoted (lineOf program arguments) := by
      intro hquoted
      have hshort := length_splitProgram_of_isQuoted hquoted
      have hspaced := length_spaced_le arguments
      rw [hsplit, lineOf, List.length_append] at hshort
      dsimp only at hshort
      omega
    have hseparable := separable_splitProgram hquoted
    rwa [hsplit] at hseparable
  · rintro ⟨hspace, hnamed, hunquoted⟩
    by_cases hne : program = []
    · rw [hne, hnamed hne]
      rfl
    refine splitProgram_append_spaced hspace hne ?_ h
    rintro ⟨more, hmore, hclosed⟩
    rw [skipSpaces_append hspace hne] at hmore
    obtain ⟨c, rest, rfl⟩ := List.exists_cons_of_ne_nil hne
    obtain ⟨rfl, rfl⟩ := List.cons.inj hmore
    refine hunquoted rest rfl ?_
    obtain ⟨rfl, heq⟩ | heq := spaced_eq arguments <;> simpa [heq] using hclosed

end PaneCompletion
