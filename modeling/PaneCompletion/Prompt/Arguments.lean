import PaneCompletion.Text.Letter

/-!
# Arguments of the program

`[left] [right] [--file FILE] [--debug] [-h | --help]`. Options may be shortened as far as they
begin one only, and a value may follow an equals sign; after `--` everything is an operand. The two
operands have to stand side by side, or the second one is refused.

1. what an argument is;
2. reading the arguments in order.
-/

namespace PaneCompletion

/-- What the program is started with. -/
structure Arguments where
  /-- The directory of the current pane. -/
  left : Text := ['.']
  /-- The directory of the other pane, when it is another. -/
  right : Option Text := none
  /-- The file under the cursor. -/
  file : Option Text := none
  /-- Whether everything that is logged is shown. -/
  debug : Bool := false
  deriving DecidableEq, Repr

/-- Why the program does not start. -/
inductive ArgumentStop where
  /-- Help was asked for. -/
  | help
  /-- The arguments are no use. -/
  | misuse
  deriving DecidableEq, Repr

/-- The exit status that goes with it. -/
def ArgumentStop.status : ArgumentStop → Nat
  | .help => 0
  | .misuse => 2

namespace Arguments

/-! ## Single arguments -/

/-- The options. -/
inductive Flag where
  | help
  | file
  | debug
  deriving DecidableEq, Repr

/-- The long names of the options. -/
def flags : List (Text × Flag) :=
  [("--help".toList, .help), ("--file".toList, .file), ("--debug".toList, .debug)]

/-- What an argument is, before its place is looked at. -/
inductive Item where
  /-- A directory, or the value of an option. -/
  | operand (text : Text)
  /-- The two dashes after which there are only operands. -/
  | marker
  /-- An option in its long form, with a value after an equals sign. -/
  | long (flag : Flag) (value : Option Text)
  /-- The short option, with what is typed directly after it. -/
  | short (after : Text)
  /-- Something with a dash in front that is no option. -/
  | unknown
  /-- The beginning of several options. -/
  | ambiguous
  deriving DecidableEq, Repr

/-- Whether a text after a dash makes it a negative number: digits, with a point before the last of
them or none. A line end after it does not matter. -/
def isNumber (text : Text) : Bool :=
  let text := if text.getLast? = some '\n' then text.dropLast else text
  match text.dropWhile Text.isDecimal with
  | [] => !text.isEmpty
  | '.' :: digits => !digits.isEmpty && digits.all Text.isDecimal
  | _ => false

/-- A text with a dash in front that no option begins with: an operand if it is a negative number or
has a space in it. -/
def undecided (text : Text) : Item :=
  if isNumber (text.drop 1) || text.contains ' ' then .operand text else .unknown

/-- What an argument is, where no marker has come before it. -/
def itemOf (text : Text) : Item :=
  match text with
  | ['-', '-'] => .marker
  | '-' :: '-' :: _ =>
    let name := text.takeWhile (· ≠ '=')
    let value := if text.contains '=' then some (text.drop (name.length + 1)) else none
    match flags.filter fun flag => Text.startsWith flag.1 name with
    | [] => undecided text
    | [(_, flag)] => .long flag value
    | _ => .ambiguous
  | ['-'] => .operand text
  | '-' :: 'h' :: after => .short after
  | '-' :: _ => undecided text
  | _ => .operand text

/-- What the arguments are. -/
def itemsOf : List Text → List Item
  | [] => []
  | text :: rest =>
    match itemOf text with
    | .marker => .marker :: rest.map .operand
    | item => item :: itemsOf rest

/-! ## Reading in order -/

/-- Which operand may come next. -/
inductive Expected where
  /-- The first. -/
  | left
  /-- The second, or an option after which there is no more. -/
  | right
  /-- None; a marker may still follow directly. -/
  | nothing
  /-- None at all. -/
  | closed
  deriving DecidableEq, Repr

/-- How far the arguments have been read: the values so far, which operand may come next, and
whether there was one too many. -/
structure Reading where
  values : Arguments := {}
  expected : Expected := .left
  surplus : Bool := false
  deriving DecidableEq, Repr

namespace Reading

/-- Read an operand. Two dashes as second operand count as none. -/
def operand (r : Reading) (text : Text) : Reading :=
  match r.expected with
  | .left => { r with values := { r.values with left := text }, expected := .right }
  | .right =>
    let right := if text = ['-', '-'] then none else some text
    { r with values := { r.values with right }, expected := .nothing }
  | .nothing | .closed => { r with surplus := true }

/-- Read the marker. -/
def marker (r : Reading) : Reading := if r.expected = .closed then { r with surplus := true } else r

/-- Come to an option: operands that have begun are at their end. -/
def option (r : Reading) : Reading :=
  if r.expected = .left then r else { r with expected := .closed }

end Reading

/-- What the short option comes to, given what is typed directly after it. It may be repeated, also
after an equals sign; anything else there is no use. -/
def shortStop (after : Text) : ArgumentStop :=
  match after with
  | ['='] => .misuse
  | '=' :: repeated => if repeated.all (· = 'h') then .help else .misuse
  | repeated => if repeated.all (· = 'h') then .help else .misuse

/-- The file that a value names. Two dashes count as none. -/
def fileOf (value : Text) : Option Text := if value = ['-', '-'] then none else some value

/-- Read the items in order. -/
def readItems (r : Reading) : List Item → Except ArgumentStop Reading
  | [] => .ok r
  | .operand text :: rest => readItems (r.operand text) rest
  | .marker :: rest => readItems r.marker rest
  | .unknown :: rest => readItems { r.option with surplus := true } rest
  | .ambiguous :: _ => .error .misuse
  | .short after :: _ => .error (shortStop after)
  | .long .help none :: _ => .error .help
  | .long .debug none :: rest =>
    let r := r.option
    readItems { r with values := { r.values with debug := true } } rest
  | .long .file (some value) :: rest =>
    let r := r.option
    readItems { r with values := { r.values with file := fileOf value } } rest
  | .long .file none :: .operand value :: rest =>
    let r := r.option
    readItems { r with values := { r.values with file := some value } } rest
  | .long .file none :: _ => .error .misuse
  | .long .help (some _) :: _ => .error .misuse
  | .long .debug (some _) :: _ => .error .misuse

/-- Read the arguments. An option that is ambiguous is refused before any other is looked at, a
surplus one after all of them. -/
def parse (texts : List Text) : Except ArgumentStop Arguments :=
  let items := itemsOf texts
  if items.contains .ambiguous then .error .misuse
  else match readItems {} items with
    | .error stop => .error stop
    | .ok r => if r.surplus then .error .misuse else .ok r.values

end Arguments

end PaneCompletion
