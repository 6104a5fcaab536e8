/-!
# Text

A text is a list of code points, so every offset and length counts code points and every scanner
is a structural recursion. This module holds the searches and cuts the other modules share.

1. cutting at a separator and joining again;
2. offsets of a character;
3. tests on beginnings, ends and parts;
4. trimming.
-/

namespace PaneCompletion

/-- A text is its code points in order. -/
abbrev Text := List Char

namespace Text

/-! ## Cutting and joining -/

/-- Put a character in front of the first piece. -/
def onFirst (c : Char) : List Text → List Text
  | [] => [[c]]
  | piece :: pieces => (c :: piece) :: pieces

/-- The pieces between separators; one more than there are separators, so never none. -/
def pieces (separator : Char) : Text → List Text
  | [] => [[]]
  | c :: rest =>
    if c = separator then [] :: pieces separator rest else onFirst c (pieces separator rest)

/-- The pieces with one separator between each two. -/
def joined (separator : Text) : List Text → Text
  | [] => []
  | [piece] => piece
  | piece :: next :: more => piece ++ separator ++ joined separator (next :: more)

/-! ## Offsets -/

/-- The offset of the first `c`. -/
def firstIndex? (c : Char) : Text → Option Nat
  | [] => none
  | d :: rest => if d = c then some 0 else (firstIndex? c rest).map (· + 1)

/-- The offset of the last `c`. -/
def lastIndex? (c : Char) : Text → Option Nat
  | [] => none
  | d :: rest =>
    match lastIndex? c rest with
    | some i => some (i + 1)
    | none => if d = c then some 0 else none

/-- The offset that a number means in a text: below zero it counts from the end, at most as far as
the beginning. -/
def offset (n : Int) (t : Text) : Nat := if n < 0 then (t.length + n).toNat else n.toNat

/-- The offset of the last `c` at or after offset `start`. -/
def lastIndexFrom? (c : Char) (start : Nat) (t : Text) : Option Nat :=
  (lastIndex? c (t.drop start)).map (· + start)

/-- How far a text reaches up to and with its last `c`: zero where there is no `c`. -/
def reach (c : Char) (t : Text) : Nat :=
  match lastIndex? c t with
  | some i => i + 1
  | none => 0

/-! ## Tests -/

/-- Whether a text begins with another. -/
def startsWith (t beginning : Text) : Bool := beginning.isPrefixOf t

/-- Whether the last character is `c`. -/
def endsIn (c : Char) (t : Text) : Bool := t.getLast? == some c

/-- Whether a text occurs somewhere in another. -/
def occursIn (part : Text) : Text → Bool
  | [] => part.isEmpty
  | c :: rest => startsWith (c :: rest) part || occursIn part rest

/-! ## Trimming -/

/-- A text without the run of characters of a class at its end. -/
def dropEnd (p : Char → Bool) (t : Text) : Text := (t.reverse.dropWhile p).reverse

/-- A text without its leading spaces. -/
def skipSpaces (t : Text) : Text := t.dropWhile (· = ' ')

/-- The longest run of characters of a class at the end of a text. -/
def takeEnd (p : Char → Bool) (t : Text) : Text := (t.reverse.takeWhile p).reverse

end Text

/-- The text itself when it has a character. -/
def nonEmpty? : Option Text → Option Text
  | some (c :: rest) => some (c :: rest)
  | _ => none

end PaneCompletion
