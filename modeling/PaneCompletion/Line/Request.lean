import PaneCompletion.Line.Token
import PaneCompletion.Line.Command
import PaneCompletion.Text.Letter

/-!
# Completion requests

A command line in parts: the command, the text of its arguments, its words, and where in that text
the argument begins that is being completed. `splitProgram` takes apart the line of an external
program.
-/

namespace PaneCompletion

/-- How the argument being completed is read. -/
inductive Reading where
  /-- As it stands. -/
  | plain
  /-- As a text inside quotes. -/
  | quoted (quote : Quote)
  deriving DecidableEq, Repr

/-- What is being completed. -/
structure Request where
  /-- The text after the command name. -/
  line : Text
  command : Command := .other
  /-- The offset in the line at which the argument being completed begins. Below zero it counts from
  the end of the line. -/
  position : Int := 0
  /-- The words of the line. -/
  words : List Text := []
  reading : Reading := .plain
  deriving DecidableEq, Repr

namespace Request

/-- The number of words. -/
def wordCount (request : Request) : Nat := request.words.length

/-- Whether the last word is still being typed. -/
def inWord (request : Request) : Bool :=
  0 < request.wordCount && !Token.endsInSpace request.line

/-- Whether the first word is the one being completed. -/
def atFirst (request : Request) : Bool :=
  request.wordCount == 0 || (request.wordCount == 1 && !Token.endsInSpace request.line)

end Request

/-- The command name at the beginning of a text: a letter with the letters and numbers after it, or
any one character. -/
def commandName : Text → Text
  | [] => []
  | c :: rest => if Text.isLetter c then (c :: rest).takeWhile Text.isLetterOrNumber else [c]

/-- A command line without the colons and spaces in front. -/
def commandBody (text : Text) : Text := text.dropWhile fun c => c = ':' || c = ' '

/-- The name and the request of a command line. The argument being completed is the last word, or
an empty one after a space at the end; it is quoted where it begins with a quote. -/
def parseLine (text : Text) : Text × Request :=
  let body := commandBody text
  let name := commandName body
  let line := Text.skipSpaces (body.drop name.length)
  let tokens := tokenize line
  let position : Nat :=
    match tokens.starts.getLast? with
    | some start => if Token.endsInSpace line then line.length else start
    | none => line.length
  let reading :=
    match (line.drop position).head? with
    | some '\'' => .quoted .single
    | some '"' => .quoted .double
    | _ => .plain
  (name, { line, command := Command.ofName name, position, words := tokens.words, reading })

/-- The program and the arguments of an external command. The program may stand in double quotes,
which are not part of it. -/
def splitProgram (line : Text) : Text × Text :=
  let line := Text.skipSpaces line
  let plain := (line.takeWhile (· ≠ ' '), Text.skipSpaces (line.dropWhile (· ≠ ' ')))
  match line with
  | '"' :: rest =>
    if rest.contains '"' then
      (rest.takeWhile (· ≠ '"'), Text.skipSpaces ((rest.dropWhile (· ≠ '"')).drop 1))
    else plain
  | _ => plain

end PaneCompletion
