import PaneCompletion.Context.Path
import PaneCompletion.Proofs.Line.Cut
import PaneCompletion.Proofs.Text.Offset

/-!
# Requests of a line

What a command line asks for depends, the command apart, on the text after the command name alone.
`parseLine_eq` says so: a request is made of its line by `argumentStart`, the words, and `readingOf`
the text from that start on. The lemmas after it say what these two come to.
-/

namespace PaneCompletion

/-- Where the argument begins that is being completed in a line. -/
def argumentStart (line : Text) : Nat :=
  match (tokenize line).starts.getLast? with
  | some start => if Token.endsInSpace line then line.length else start
  | none => line.length

/-- How an argument is read, by its first character. -/
def readingOf (argument : Text) : Reading :=
  match argument.head? with
  | some '\'' => .quoted .single
  | some '"' => .quoted .double
  | _ => .plain

/-- What a line asks a command for. -/
def Request.ofLine (command : Command) (line : Text) : Request :=
  { line
    command
    position := argumentStart line
    words := (tokenize line).words
    reading := readingOf (line.drop (argumentStart line)) }

/-- The text of the arguments in a command line. -/
def argumentText (text : Text) : Text :=
  Text.skipSpaces ((commandBody text).drop (commandName (commandBody text)).length)

theorem parseLine_eq (text : Text) :
    parseLine text =
      (commandName (commandBody text),
        Request.ofLine (Command.ofName (commandName (commandBody text))) (argumentText text)) := rfl

/-! ## Where the argument begins -/

theorem argumentStart_of_space {line : Text} (hspace : Token.endsInSpace line = true) :
    argumentStart line = line.length := by
  unfold argumentStart
  split
  · rw [if_pos hspace]
  · rfl

theorem argumentStart_of_word {line : Text} {start : Nat}
    (hspace : Token.endsInSpace line = false)
    (hstart : (tokenize line).starts.getLast? = some start) : argumentStart line = start := by
  simp [argumentStart, hstart, hspace]

theorem argumentStart_of_no_word {line : Text} (hnone : (tokenize line).starts = []) :
    argumentStart line = line.length := by
  simp [argumentStart, hnone]

theorem Request.slash?_ofLine (command : Command) (line : Text) :
    (ofLine command line).slash? = Text.lastIndexFrom? '/' (argumentStart line) line := by
  simp [slash?, ofLine]

theorem Request.slash?_ofLine_append (command : Command) {a b : Text}
    (hstart : argumentStart (a ++ b) = a.length) :
    (ofLine command (a ++ b)).slash? = (Text.lastIndex? '/' b).map (· + a.length) := by
  rw [slash?_ofLine, hstart, Text.lastIndexFrom?_append]

/-! ## How the argument is read -/

theorem readingOf_plain {argument : Text} (h : ∀ c ∈ argument.head?, isQuote c = false) :
    readingOf argument = .plain := by
  unfold readingOf
  split
  · next hc => exact absurd (h _ hc) (by decide)
  · next hc => exact absurd (h _ hc) (by decide)
  · rfl

theorem readingOf_quote (quote : Quote) (rest : Text) :
    readingOf (quote.char :: rest) = .quoted quote := by
  cases quote <;> rfl

end PaneCompletion
