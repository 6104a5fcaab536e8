import PaneCompletion.Json.Value

/-!
# Writing JSON

Documents are written over several lines, two spaces for each level, in ASCII: a character outside
it is escaped by its UTF-16 units, and so is U+007F. Empty arrays and objects stay on their line.
-/

namespace PaneCompletion.Json

/-- A hexadecimal digit. -/
def hexDigit (n : Nat) : Char := Nat.digitChar (n % 16)

/-- The escape of a UTF-16 unit. -/
def unitEscape (unit : Nat) : Text :=
  ['\\', 'u', hexDigit (unit / 4096), hexDigit (unit / 256), hexDigit (unit / 16), hexDigit unit]

/-- A character inside a string. -/
def charText (c : Char) : Text :=
  if c = '"' then ['\\', '"']
  else if c = '\\' then ['\\', '\\']
  else if c = '\n' then ['\\', 'n']
  else if c = '\r' then ['\\', 'r']
  else if c = '\t' then ['\\', 't']
  else if c = '\x08' then ['\\', 'b']
  else if c = '\x0c' then ['\\', 'f']
  else
    let n := c.toNat
    if 0x20 ≤ n ∧ n < 0x7F then [c]
    else if n < 0x10000 then unitEscape n
    else
      let above := n - 0x10000
      unitEscape (0xD800 + above / 1024) ++ unitEscape (0xDC00 + above % 1024)

/-- A string in its quotes. -/
def stringText (text : Text) : Text := '"' :: text.flatMap charText ++ ['"']

/-- The beginning of a line at a level. -/
def lineStart (level : Nat) : Text := '\n' :: List.replicate (2 * level) ' '

mutual

/-- A value whose lines belong to a level. -/
def valueText (level : Nat) : Json → Text
  | .null => "null".toList
  | .bool true => "true".toList
  | .bool false => "false".toList
  | .int n => (toString n).toList
  | .decimal written => written
  | .string text => stringText text
  | .array [] => ['[', ']']
  | .array (item :: items) =>
    '[' :: lineStart (level + 1) ++ valueText (level + 1) item ++ itemsText (level + 1) items ++
      lineStart level ++ [']']
  | .object [] => ['{', '}']
  | .object (member :: members) =>
    '{' :: lineStart (level + 1) ++ memberText (level + 1) member ++
      membersText (level + 1) members ++ lineStart level ++ ['}']

/-- The further items of an array, a comma before each. -/
def itemsText (level : Nat) : List Json → Text
  | [] => []
  | item :: items => ',' :: lineStart level ++ valueText level item ++ itemsText level items

/-- A member of an object. -/
def memberText (level : Nat) : Text × Json → Text
  | (key, value) => stringText key ++ [':', ' '] ++ valueText level value

/-- The further members of an object, a comma before each. -/
def membersText (level : Nat) : List (Text × Json) → Text
  | [] => []
  | member :: members =>
    ',' :: lineStart level ++ memberText level member ++ membersText level members

end

/-- The document of a value, without a line end after it. -/
def print (value : Json) : Text := valueText 0 value

end PaneCompletion.Json
