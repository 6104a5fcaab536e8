import PaneCompletion.Text.Basic

/-!
# Words of a command's arguments

Arguments are separated by blanks and tabs. A backslash takes the next character as it is, single
quotes take everything up to the next single quote, where two of them stand for one, and double
quotes know backslash escapes. The reader is a machine over single characters: `step` is what one
character does, a text is read by folding `step` over it, and `finish` says what the state at the
end amounts to.

1. the machine;
2. `tokenize`;
3. readers of a single quoted argument.
-/

namespace PaneCompletion

/-- The two quotes. -/
inductive Quote where
  | single
  | double
  deriving DecidableEq, Repr

/-- The character of a quote. -/
def Quote.char : Quote → Char
  | .single => '\''
  | .double => '"'

/-- Whether a character is a quote. -/
def isQuote (c : Char) : Bool := c == '\'' || c == '"'

namespace Token

/-! ## The machine -/

/-- What a backslash and a character stand for inside double quotes. -/
def escaped (c : Char) : Char :=
  if c = 'a' then '\x07' else if c = 'b' then '\x08' else if c = 'f' then '\x0c'
  else if c = 'n' then '\n' else if c = 'r' then '\r' else if c = 't' then '\t'
  else if c = 'v' then '\x0b' else c

/-- Where the reader stands. -/
inductive Mode where
  /-- Between words. -/
  | gap
  /-- In a word, outside quotes. -/
  | bare
  /-- In a word, after a backslash outside quotes. -/
  | bareEscape
  /-- Inside single quotes. -/
  | single
  /-- After a single quote inside single quotes: the end of the quotes, unless another follows. -/
  | singleEnd
  /-- Inside double quotes. -/
  | double
  /-- After a backslash inside double quotes. -/
  | doubleEscape
  deriving DecidableEq, Repr

/-- The reader's state: offset of the next character, finished words, where each word began, the
value of the word under way, and the mode. -/
structure Reader where
  offset : Nat
  words : List Text
  starts : List Nat
  value : Text
  mode : Mode
  deriving DecidableEq, Repr

namespace Reader

/-- The reader before any character. -/
def start : Reader := ⟨0, [], [], [], .gap⟩

/-- One character on, with a mode and a value. -/
def move (r : Reader) (mode : Mode) (value : Text) : Reader :=
  { r with offset := r.offset + 1, mode, value }

/-- A character outside quotes, in a word. -/
def bareStep (r : Reader) (c : Char) : Reader :=
  if c = ' ' ∨ c = '\t' then
    { r with offset := r.offset + 1, words := r.words ++ [r.value], value := [], mode := .gap }
  else if c = '\\' then r.move .bareEscape r.value
  else if c = '\'' then r.move .single r.value
  else if c = '"' then r.move .double r.value
  else r.move .bare (r.value ++ [c])

/-- What a character does. -/
def step (r : Reader) (c : Char) : Reader :=
  match r.mode with
  | .gap =>
    if c = ' ' ∨ c = '\t' then r.move .gap r.value
    else bareStep { r with starts := r.starts ++ [r.offset] } c
  | .bare => r.bareStep c
  | .bareEscape => r.move .bare (r.value ++ [c])
  | .single => if c = '\'' then r.move .singleEnd r.value else r.move .single (r.value ++ [c])
  | .singleEnd => if c = '\'' then r.move .single (r.value ++ ['\'']) else r.bareStep c
  | .double =>
    if c = '\\' then r.move .doubleEscape r.value
    else if c = '"' then r.move .bare r.value
    else r.move .double (r.value ++ [c])
  | .doubleEscape => r.move .double (r.value ++ [escaped c])

/-- Read a text. -/
def run (r : Reader) (text : Text) : Reader := text.foldl step r

/-- The words read, the last one as far as it goes; a backslash at the end stands for itself. -/
def allWords (r : Reader) : List Text :=
  match r.mode with
  | .gap => r.words
  | .bareEscape | .doubleEscape => r.words ++ [r.value ++ ['\\']]
  | _ => r.words ++ [r.value]

/-- The quote that is still open. -/
def openQuote (r : Reader) : Option Quote :=
  match r.mode with
  | .single => some .single
  | .double | .doubleEscape => some .double
  | _ => none

end Reader

end Token

/-! ## Tokenizing -/

/-- The words of a text, the offsets at which they begin, and the quote left open at the end. -/
structure Tokens where
  words : List Text
  starts : List Nat
  quote : Option Quote
  deriving DecidableEq, Repr

/-- Read the words of a text. -/
def tokenize (text : Text) : Tokens :=
  let r := Token.Reader.start.run text
  { words := r.allWords, starts := r.starts, quote := r.openQuote }

namespace Token

/-! ## Readers of a single quoted argument -/

/-- The value of a text inside single quotes. -/
def unquoteSingle : Text → Text
  | [] => []
  | '\'' :: '\'' :: rest => '\'' :: unquoteSingle rest
  | c :: rest => c :: unquoteSingle rest

/-- The value of a text inside double quotes. A backslash at the end stands for itself. -/
def unquoteDouble : Text → Text
  | [] => []
  | [c] => [c]
  | c :: d :: rest =>
    if c = '\\' then escaped d :: unquoteDouble rest else c :: unquoteDouble (d :: rest)

/-- Whether a text ends in a space that no backslash takes as it is. -/
def endsInSpace : Text → Bool
  | [] => false
  | [c] => c == ' '
  | c :: d :: rest => if c = '\\' then endsInSpace rest else endsInSpace (d :: rest)

end Token

end PaneCompletion
