import PaneCompletion.Text.Ranges

/-!
# Blanks and lines

White space in the Unicode sense, with the four information separators U+001C to U+001F, and the
lines of a text, which a line feed, a carriage return or the two in that order end.
-/

namespace PaneCompletion.Text

/-- White space: the Unicode property and the information separators. -/
def blankRanges : List (Nat × Nat) :=
  [(0x9, 0xD), (0x1C, 0x20), (0x85, 0x85), (0xA0, 0xA0), (0x1680, 0x1680), (0x2000, 0x200A),
   (0x2028, 0x2029), (0x202F, 0x202F), (0x205F, 0x205F), (0x3000, 0x3000)]

/-- Whether a character is white space. -/
def isBlank (c : Char) : Bool := inRanges c.toNat blankRanges

/-- A text without the white space at its two ends. -/
def trimmed (t : Text) : Text := dropEnd isBlank (t.dropWhile isBlank)

/-- The line ends of a text as single line feeds. -/
def withLineFeeds : Text → Text
  | [] => []
  | '\r' :: '\n' :: rest => '\n' :: withLineFeeds rest
  | c :: rest => (if c = '\r' then '\n' else c) :: withLineFeeds rest

/-- The lines of a text, without their ends; what follows the last line end counts as a line. -/
def lines (t : Text) : List Text := pieces '\n' (withLineFeeds t)

end PaneCompletion.Text
