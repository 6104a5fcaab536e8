import PaneCompletion.Text.LowerCase
import PaneCompletion.Vocabulary.Highlight
import PaneCompletion.World.Basic

/-!
# Colored output

A text is put between the terminal's codes for a color, where the output is a terminal that shows
colors.
-/

namespace PaneCompletion

/-- What is known of the output: whether it is a terminal, and whether that is the console of
Windows, which shows colors only where a variable says so. -/
structure Terminal where
  attached : Bool := false
  windowsConsole : Bool := false
  deriving DecidableEq, Repr

namespace Terminal

/-- Whether the output shows colors. -/
def showsColor (terminal : Terminal) (world : World) : Bool :=
  terminal.attached &&
    if terminal.windowsConsole then
      ["WT_SESSION", "TERM", "ANSICON"].any fun name => (world.value? name.toList).isSome
    else world.value? "TERM".toList != some "dumb".toList

/-- The code that starts a foreground color. -/
def startCode (number : Nat) : Text := '\x1b' :: '[' :: (toString number).toList ++ ['m']

/-- The code that ends all colors. -/
def endCode : Text := ['\x1b', '[', '0', 'm']

/-- A text in a color, named in any letter case; as it is where there is no such color or none is
shown. -/
def colored (terminal : Terminal) (world : World) (text color : Text) : Text :=
  match Highlight.foreground? (Text.lower color) with
  | some number =>
    if terminal.showsColor world then startCode number ++ text ++ endCode else text
  | none => text

end Terminal

end PaneCompletion
