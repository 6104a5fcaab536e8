import PaneCompletion.Text.Basic

/-!
# Writing names into a command line

`shell` writes a file name so that the command line reads it back as one word: a backslash goes in
front of every special character and of a tilde at the beginning, and a leading dash is moved
behind `./`, so that it begins no option.
-/

namespace PaneCompletion.Escape

/-- The characters that get a backslash anywhere in a name. -/
def special : List Char :=
  ['\'', '\\', '\r', '\n', '\t', '"', ';', ' ', '?', '|', '[', ']', '{', '}', '<', '>', '`', '!',
    '$', '&', '*', '(', ')', '#']

/-- One character of a name, after the first. -/
def shellChar (doublePercent : Bool) (c : Char) : Text :=
  if c = '%' then (if doublePercent then ['%', '%'] else ['%'])
  else if special.contains c then ['\\', c]
  else [c]

/-- The first character of a name. -/
def shellFirst (doublePercent : Bool) (c : Char) : Text :=
  if c = '-' then ['.', '/', '-']
  else if c = '~' then ['\\', '~']
  else shellChar doublePercent c

/-- A name as it is written into a command line; percent signs are doubled for a reader that expands
macros. -/
def shell (name : Text) (doublePercent : Bool := false) : Text :=
  match name with
  | [] => []
  | c :: rest => shellFirst doublePercent c ++ rest.flatMap (shellChar doublePercent)

/-- A text with a backslash in front of each of some characters. -/
def listed (chars text : Text) : Text :=
  text.flatMap fun c => if chars.contains c then ['\\', c] else [c]

end PaneCompletion.Escape
