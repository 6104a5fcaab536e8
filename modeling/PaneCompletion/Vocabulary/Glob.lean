import PaneCompletion.Text.Basic

/-!
# Name patterns

Shell patterns over whole texts: `*` stands for any text, `?` for any character, a set in brackets
for one of its characters or, after `!`, for one that is not in it; nothing escapes. A bracket
that no other closes stands for itself, and one that comes first in a set belongs to it.

1. pieces;
2. reading a pattern;
3. matching.
-/

namespace PaneCompletion.Glob

/-! ## Pieces -/

/-- A part of a set: one character or a range, which is empty when its ends are the wrong way
round. -/
inductive Member where
  | single (c : Char)
  | range (low high : Char)
  deriving DecidableEq, Repr

/-- Whether a character is a member. -/
def Member.has (c : Char) : Member → Bool
  | .single d => c == d
  | .range low high => low.toNat ≤ c.toNat && c.toNat ≤ high.toNat

/-- Whether a member is a range with its ends the wrong way round. -/
def Member.isReversed : Member → Bool
  | .single _ => false
  | .range low high => high.toNat < low.toNat

/-- A part of a pattern. -/
inductive Piece where
  | star
  | any
  | oneOf (members : List Member)
  | noneOf (members : List Member)
  | char (c : Char)
  deriving DecidableEq, Repr

/-- Whether a part that stands for one character stands for this one. -/
def Piece.accepts (c : Char) : Piece → Bool
  | .star | .any => true
  | .oneOf members => members.any (·.has c)
  | .noneOf members => !members.any (·.has c)
  | .char d => c == d

/-! ## Reading a pattern -/

/-- The members that the inside of a set lists: a hyphen between two characters makes them a
range. -/
def membersOf : Text → List Member
  | [] => []
  | [c] => [.single c]
  | [c, d] => [.single c, .single d]
  | c :: d :: e :: rest =>
    if d = '-' then .range c e :: membersOf rest else .single c :: membersOf (d :: e :: rest)

/-- The set of some members, the first of which is no exclamation mark. Reversed ranges are left
out; an exclamation mark that this brings to the front complements the set like one that was typed
there. -/
def setOf (members : List Member) : Piece :=
  match members.filter (!·.isReversed) with
  | .single '!' :: rest => .noneOf rest
  | .range '!' high :: rest => .noneOf (.single '-' :: .single high :: rest)
  | kept => .oneOf kept

/-- The inside of a set, and the length of what is typed after the bracket that opens it. -/
def insideOf (afterBracket : Text) : Option (Bool × Text × Nat) :=
  let complement := Text.startsWith afterBracket ['!']
  let text := if complement then afterBracket.drop 1 else afterBracket
  let lead := if Text.startsWith text [']'] then 1 else 0
  match Text.firstIndex? ']' (text.drop lead) with
  | none => none
  | some i =>
    let length := lead + i
    some (complement, text.take length, (if complement then 1 else 0) + length + 1)

/-- Read a pattern, passing over the first `skip` characters, which a set has taken. -/
def piecesFrom : Nat → Text → List Piece
  | _, [] => []
  | skip + 1, _ :: rest => piecesFrom skip rest
  | 0, c :: rest =>
    if c = '*' then .star :: piecesFrom 0 rest
    else if c = '?' then .any :: piecesFrom 0 rest
    else if c = '[' then
      match insideOf rest with
      | none => .char '[' :: piecesFrom 0 rest
      | some (true, inside, length) =>
        .noneOf ((membersOf inside).filter (!·.isReversed)) :: piecesFrom length rest
      | some (false, inside, length) => setOf (membersOf inside) :: piecesFrom length rest
    else .char c :: piecesFrom 0 rest

/-- The parts of a pattern. -/
def piecesOf (pattern : Text) : List Piece := piecesFrom 0 pattern

/-! ## Matching

Pieces are compared with a text row by row, from the last piece to the first. A row says of each end
of the text, the text itself first and the empty one last, whether the pieces so far match it. -/

/-- Each entry of a row with those after it: whether one of them holds. -/
def anyLater (row : List Bool) : List Bool :=
  row.foldr (fun b later => (b || later.headD false) :: later) []

/-- The row for one more piece that stands for a single character. -/
def passOne (piece : Piece) : Text → List Bool → List Bool
  | c :: text, _ :: row => (piece.accepts c && row.headD false) :: passOne piece text row
  | _, _ => [false]

/-- The row of some pieces. -/
def rowOf (text : Text) : List Piece → List Bool
  | [] => text.map (fun _ => false) ++ [true]
  | .star :: rest => anyLater (rowOf text rest)
  | piece :: rest => passOne piece text (rowOf text rest)

/-- Whether a pattern matches a whole text. -/
def fits (pattern text : Text) : Bool := (rowOf text (piecesOf pattern)).headD false

end PaneCompletion.Glob
