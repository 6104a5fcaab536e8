import PaneCompletion.Text.Basic

/-!
# Words of highlighting

The names that highlighting commands know, and the terminal codes of the colors.
-/

namespace PaneCompletion.Highlight

/-- What can be highlighted. -/
def groups : List Text :=
  ["Win", "Directory", "Link", "BrokenLink", "Socket", "Device", "Fifo", "Executable", "Selected",
    "CurrLine", "TopLine", "TopLineSel", "StatusLine", "WildMenu", "CmdLine", "ErrorMsg", "Border",
    "OtherLine"].map String.toList

/-- What can be set of a group. -/
def attributes : List Text := ["cterm", "ctermfg", "ctermbg"].map String.toList

/-- The text styles. -/
def styles : List Text :=
  ["bold", "underline", "reverse", "inverse", "standout", "none"].map String.toList

/-- The basic colors, in the order of their terminal codes. -/
def basicColors : List Text :=
  ["black", "red", "green", "yellow", "blue", "magenta", "cyan", "white"].map String.toList

/-- The light colors, in the order of their terminal codes. -/
def lightColors : List Text := basicColors.map ("light".toList ++ ·)

/-- All color words, those that stand for no color first. -/
def colors : List Text := ["default", "none"].map String.toList ++ basicColors ++ lightColors

/-- The number of the terminal's foreground code of a color: basic colors from 30 on, light ones
from 90 on. -/
def foreground? (color : Text) : Option Nat :=
  match basicColors.idxOf? color with
  | some i => some (30 + i)
  | none => (lightColors.idxOf? color).map (90 + ·)

end PaneCompletion.Highlight
