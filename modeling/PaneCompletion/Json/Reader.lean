import PaneCompletion.Json.Value

/-!
# Reading JSON

The strict grammar, and beyond it the three names of numbers that are none (`NaN`, `Infinity`,
`-Infinity`). A whole number has to keep to a limit of digits. Strings hold no raw control
characters; escapes of two UTF-16 units that belong together make one character. Of a repeated key
the last value counts, in the place of the first.

Every reader takes a text and answers what it read with the text that is left. Arrays and objects
may stand in each other only so deep; the readers of values know how much room there is. They have
fuel, of which twice the length of the document is enough.

1. blanks and strings;
2. numbers;
3. values and documents.
-/

namespace PaneCompletion.Json

/-! ## Strings -/

/-- The text after the blanks in front. -/
def skipBlanks (text : Text) : Text :=
  text.dropWhile fun c => c = ' ' || c = '\t' || c = '\n' || c = '\r'

/-- The value of a hexadecimal digit. -/
def hexValue? (c : Char) : Option Nat :=
  if '0' ≤ c ∧ c ≤ '9' then some (c.toNat - '0'.toNat)
  else if 'a' ≤ c ∧ c ≤ 'f' then some (c.toNat - 'a'.toNat + 10)
  else if 'A' ≤ c ∧ c ≤ 'F' then some (c.toNat - 'A'.toNat + 10)
  else none

/-- The UTF-16 unit of four hexadecimal digits. -/
def unit? (a b c d : Char) : Option Nat := do
  return (← hexValue? a) * 4096 + (← hexValue? b) * 256 + (← hexValue? c) * 16 + (← hexValue? d)

/-- What the character after a backslash stands for. -/
def escape? (c : Char) : Option Char :=
  if c = '"' ∨ c = '\\' ∨ c = '/' then some c
  else if c = 'b' then some '\x08'
  else if c = 'f' then some '\x0c'
  else if c = 'n' then some '\n'
  else if c = 'r' then some '\r'
  else if c = 't' then some '\t'
  else none

/-- Whether a unit is the first of a pair. -/
def isHigh (unit : Nat) : Bool := 0xD800 ≤ unit && unit < 0xDC00

/-- Whether a unit is the second of a pair. -/
def isLow (unit : Nat) : Bool := 0xDC00 ≤ unit && unit < 0xE000

/-- The character of a unit that stands alone; one half of a pair is no character. -/
def unitChar (unit : Nat) : Char := if isHigh unit || isLow unit then '\uFFFD' else Char.ofNat unit

/-- The characters of units in order, pairs made one. -/
def charsOfUnits : List Nat → Text
  | [] => []
  | [unit] => [unitChar unit]
  | high :: low :: rest =>
    if isHigh high && isLow low then
      Char.ofNat (0x10000 + (high - 0xD800) * 1024 + (low - 0xDC00)) :: charsOfUnits rest
    else unitChar high :: charsOfUnits (low :: rest)

/-- Read a string after its opening quote. Units of escapes that follow each other directly are
held in `units`, the last first, until something else follows. -/
def readString (units : List Nat) : Text → Option (Text × Text)
  | [] => none
  | '"' :: rest => some (charsOfUnits units.reverse, rest)
  | '\\' :: 'u' :: a :: b :: c :: d :: rest =>
    match unit? a b c d with
    | some unit => readString (unit :: units) rest
    | none => none
  | '\\' :: c :: rest =>
    match escape? c, readString [] rest with
    | some e, some (text, rest) => some (charsOfUnits units.reverse ++ e :: text, rest)
    | _, _ => none
  | c :: rest =>
    if c = '\\' ∨ c.toNat < 0x20 then none
    else match readString [] rest with
      | some (text, rest) => some (charsOfUnits units.reverse ++ c :: text, rest)
      | none => none

/-! ## Numbers -/

/-- The digits in front of a text, and the text after them. -/
def readDigits (text : Text) : Text × Text :=
  (text.takeWhile Char.isDigit, text.dropWhile Char.isDigit)

/-- The digits of the whole part of a number: a zero alone, or digits that begin with none. -/
def readWhole : Text → Option (Text × Text)
  | '0' :: rest => some (['0'], rest)
  | c :: rest => if c.isDigit then some (readDigits (c :: rest)) else none
  | [] => none

/-- The fraction at the front of a text, if there is one. -/
def readFraction : Text → Text × Text
  | '.' :: rest =>
    match readDigits rest with
    | ([], _) => ([], '.' :: rest)
    | (digits, rest) => ('.' :: digits, rest)
  | text => ([], text)

/-- The exponent at the front of a text, if there is one. -/
def readExponent (text : Text) : Text × Text :=
  match text with
  | e :: rest =>
    if e = 'e' ∨ e = 'E' then
      let sign := match rest with
        | '+' :: _ => ['+']
        | '-' :: _ => ['-']
        | _ => []
      match readDigits (rest.drop sign.length) with
      | ([], _) => ([], text)
      | (digits, rest) => (e :: sign ++ digits, rest)
    else ([], text)
  | [] => ([], text)

/-- The most digits that a whole number may have. -/
def digitLimit : Nat := 4300

/-- Read a number. -/
def readNumber (text : Text) : Option (Json × Text) :=
  let negative := Text.startsWith text ['-']
  match readWhole (if negative then text.drop 1 else text) with
  | none => none
  | some (whole, rest) =>
    let (fraction, rest) := readFraction rest
    let (exponent, rest) := readExponent rest
    if fraction.isEmpty && exponent.isEmpty then
      let n : Int := Decimal.wholeOf whole
      if digitLimit < whole.length then none else some (.int (if negative then -n else n), rest)
    else some (.decimal ((if negative then ['-'] else []) ++ whole ++ fraction ++ exponent), rest)

/-! ## Values -/

/-- The words that are values. -/
def literals : List (Text × Json) :=
  [("null".toList, .null), ("true".toList, .bool true), ("false".toList, .bool false),
    ("NaN".toList, .decimal "NaN".toList), ("Infinity".toList, .decimal "Infinity".toList),
    ("-Infinity".toList, .decimal "-Infinity".toList)]

/-- Read a word that is a value. -/
def readWord (text : Text) : Option (Json × Text) :=
  (literals.find? fun word => Text.startsWith text word.1).map fun word =>
    (word.2, text.drop word.1.length)

/-- Why a text is no document. -/
inductive Defect where
  /-- It does not keep to the grammar. -/
  | malformed
  /-- An array or object stands too deep in others. -/
  | tooDeep (shape : Shape)
  deriving DecidableEq, Repr

/-- What was read, or that nothing could be. -/
def orMalformed {α : Type} : Option α → Except Defect α
  | some read => .ok read
  | none => .error .malformed

/-- Read the key of a member, and the colon after it. -/
def readKey : Text → Except Defect (Text × Text)
  | '"' :: rest => do
    let (key, rest) ← orMalformed (readString [] rest)
    match skipBlanks rest with
    | ':' :: rest => return (key, skipBlanks rest)
    | _ => .error .malformed
  | _ => .error .malformed

/-- How deep arrays and objects may stand in each other. -/
def depthLimit : Nat := 986

mutual

/-- Read a value, with room for arrays and objects in each other. -/
def readValue : Nat → Nat → Text → Except Defect (Json × Text)
  | 0, _, _ => .error .malformed
  | fuel + 1, room, text =>
    match text with
    | '"' :: rest =>
      (orMalformed (readString [] rest)).map fun (text, rest) => (.string text, rest)
    | '[' :: rest =>
      match room with
      | 0 => .error (.tooDeep .array)
      | room + 1 =>
        match skipBlanks rest with
        | ']' :: rest => .ok (.array [], rest)
        | rest => (readItems fuel room rest).map fun (items, rest) => (.array items, rest)
    | '{' :: rest =>
      match room with
      | 0 => .error (.tooDeep .object)
      | room + 1 =>
        match skipBlanks rest with
        | '}' :: rest => .ok (.object [], rest)
        | rest => (readMembers fuel room rest).map fun (members, rest) =>
            (.object (Table.ofPairs members), rest)
    | text => orMalformed ((readWord text).or (readNumber text))

/-- Read the items of an array, one at least, up to its end. -/
def readItems : Nat → Nat → Text → Except Defect (List Json × Text)
  | 0, _, _ => .error .malformed
  | fuel + 1, room, text => do
    let (item, rest) ← readValue fuel room text
    match skipBlanks rest with
    | ']' :: rest => return ([item], rest)
    | ',' :: rest =>
      let (items, rest) ← readItems fuel room (skipBlanks rest)
      return (item :: items, rest)
    | _ => .error .malformed

/-- Read the members of an object, one at least, up to its end. -/
def readMembers : Nat → Nat → Text → Except Defect (List (Text × Json) × Text)
  | 0, _, _ => .error .malformed
  | fuel + 1, room, text => do
    let (key, rest) ← readKey text
    let (value, rest) ← readValue fuel room rest
    match skipBlanks rest with
    | '}' :: rest => return ([(key, value)], rest)
    | ',' :: rest =>
      let (members, rest) ← readMembers fuel room (skipBlanks rest)
      return ((key, value) :: members, rest)
    | _ => .error .malformed

end

/-- Read a document: one value with blanks around it. -/
def read (text : Text) : Except Defect Json := do
  let (value, rest) ← readValue (2 * text.length + 1) depthLimit (skipBlanks text)
  if (skipBlanks rest).isEmpty then return value else .error .malformed

end PaneCompletion.Json
