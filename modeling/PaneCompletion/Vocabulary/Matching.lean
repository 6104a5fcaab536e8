import PaneCompletion.Text.LowerCase

/-!
# Matching words

The ways in which typed text is compared with the words of a vocabulary.
-/

namespace PaneCompletion

/-- How typed text is compared with words. -/
inductive Matching where
  /-- As beginnings, letter by letter. -/
  | exact
  /-- As beginnings, without regard to case. -/
  | ignoreCase
  /-- As beginnings, under the case rule for file names. -/
  | fileNames
  /-- Anywhere in a word. -/
  | anywhere
  deriving DecidableEq, Repr

/-- Whether a word begins with typed text, letter case aside. -/
def beginsIgnoringCase (word typed : Text) : Bool :=
  Text.startsWith (Text.lower word) (Text.lower typed)

/-- Whether a word matches typed text, given the case rule for file names. -/
def Matching.accepts (ignoreCase : Bool) (word typed : Text) : Matching → Bool
  | .exact => Text.startsWith word typed
  | .ignoreCase => beginsIgnoringCase word typed
  | .fileNames =>
    if ignoreCase then beginsIgnoringCase word typed else Text.startsWith word typed
  | .anywhere => Text.occursIn typed word

end PaneCompletion
