import PaneCompletion.Settings.Misfit

/-!
# Settings

What completion is told about its user and the file manager, apart from the world it looks at. A
value that does not fit its field counts here as if it were not given; why it does not fit is kept
beside, for the requests that need it.
-/

namespace PaneCompletion

/-- The settings of the completion engine. -/
structure Settings where
  /-- What a bare tilde stands for; the world's home directory when it is not given. -/
  home : Option Text := none
  /-- Whether names are matched and sorted without regard to case. -/
  ignoreCase : Bool := false
  /-- Whether help topics are completed. -/
  vimHelp : Bool := false
  /-- The file that lists the help topics. -/
  helpTags : Option Text := none
  /-- The directory of the color schemes. -/
  colorsDirectory : Option Text := none
  /-- The commands that open files of some name patterns. -/
  fileTypes : Table (List Text) := []
  /-- The commands that handle a content type. -/
  contentHandlers : Table (List Text) := []
  /-- The options with the kinds of their values. -/
  options : Table Text := []
  /-- The declared variables. -/
  variableNames : List Text := []
  /-- The builtin functions. -/
  functionNames : List Text := []
  /-- What is wrong with the values that are looked at only when they are needed. -/
  misfits : Misfits := {}

namespace Settings

/-- The home directory in force. -/
def homeIn (settings : Settings) (world : World) : Text :=
  settings.home.getD world.homeDirectory

/-- The home directory in force, unless there is none. -/
def homeIn? (settings : Settings) (world : World) : Except World.HomeError Text :=
  match settings.home with
  | some home => .ok home
  | none => world.home

/-- What keeps a leading tilde from being written out. Whatever comes after it, there has to be a
home directory; what is wrong with it counts for a text that stands for it or for a place in it, and
for any other one the name of an account. -/
def homeMisfit? (settings : Settings) (world : World) (text : Text) : Option Misfit :=
  if !Text.startsWith text ['~'] then none
  else match settings.misfits.home, settings.homeIn? world with
    | none, .error error => some (.noHome error)
    | misfit, _ =>
      if text = ['~'] ∨ Text.startsWith text ['~', '/'] then misfit
      else (world.accountError? text).map .noHome

end Settings

end PaneCompletion
