import PaneCompletion.Text.CaseTable

/-!
# Lower case

`lower` is full Unicode lower-casing. It goes beyond a map on characters in two places: a capital
I with a dot above becomes an i and a combining dot, and a capital sigma takes its final form
where a cased letter stands before it and none after it, case-ignorable characters skipped.
-/

namespace PaneCompletion.Text

/-- The simple lower-case mapping, read off the runs that hold the code point. -/
def lowerPoint (n : Nat) : List (Nat × Nat × Nat × Int) → Nat
  | [] => n
  | (low, high, step, delta) :: rest =>
    if n < low then n
    else if n ≤ high && (n - low) % step = 0 then (n + delta).toNat
    else lowerPoint n rest

/-- The lower case of one character, whatever stands around it. -/
def lowerChar (c : Char) : Text :=
  if c = '\u0130' then ['i', '\u0307'] else [Char.ofNat (lowerPoint c.toNat lowerRuns)]

/-- Whether a character has case and is not case-ignorable. -/
def isCased (c : Char) : Bool := inRanges c.toNat casedRanges

/-- Whether a character is skipped when the surroundings of a sigma are looked at. -/
def isCaseIgnorable (c : Char) : Bool := inRanges c.toNat ignorableRanges

/-- Whether the first character that is not case-ignorable has case. -/
def meetsCased (t : Text) : Bool :=
  match t.dropWhile isCaseIgnorable with
  | [] => false
  | c :: _ => isCased c

/-- The lower case of a sigma between what stands before it, nearest first, and after it. -/
def lowerSigma (before after : Text) : Char :=
  if meetsCased before && !meetsCased after then 'ς' else 'σ'

/-- Lower-case a text, given what stands before it, nearest first. -/
def lowerAfter (before : Text) : Text → Text
  | [] => []
  | c :: rest =>
    (if c = 'Σ' then [lowerSigma before rest] else lowerChar c) ++ lowerAfter (c :: before) rest

/-- Full lower case. -/
def lower (t : Text) : Text := lowerAfter [] t

end PaneCompletion.Text
