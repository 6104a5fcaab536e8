import PaneCompletion.Log
import PaneCompletion.Path.Component
import PaneCompletion.Settings.Misfit
import PaneCompletion.Text.Blank
import PaneCompletion.Text.Utf8

/-!
# Help topics

A tags file holds a topic on each line, up to the first tab. Lines that describe the file itself
carry a mark.
-/

namespace PaneCompletion.HelpTopic

/-- The mark of the lines that describe the file itself. -/
def headerMark : Text := "!_TAG_".toList

/-- The topics that a file lists: of each line the text before the first tab, trimmed, unless it
is empty or describes the file. -/
def ofText (text : Text) : List Text :=
  ((Text.lines text).map fun line => Text.trimmed (line.takeWhile (· ≠ '\t'))).filter fun topic =>
    !topic.isEmpty && !Text.startsWith topic headerMark

/-- Why a tags file cannot be read. -/
inductive Failure where
  /-- There is no file to be read at the path. -/
  | noFile (error : LookupError) (path : Text)
  /-- The file is no text. -/
  | noText (defect : Text.Utf8.Defect)
  deriving DecidableEq, Repr

/-- The warning that goes with a failure. -/
def Failure.warning (failure : Failure) : Text :=
  "Failed to read help tags: ".toList ++
    match failure with
    | .noFile error path => error.message path
    | .noText defect => defect.message

/-- The topics in a file, whose path is tidied first. -/
def read (world : World) (file : Text) : Except Failure (List Text) :=
  let path := Path.tidy file
  match world.read path with
  | .error error => .error (.noFile error path)
  | .ok bytes =>
    match Text.Utf8.readFile bytes with
    | .error defect => .error (.noText defect)
    | .ok text => .ok (ofText text)

/-- Why the topics in a file cannot be asked for. -/
def misfit? (file : Text) : Option Misfit :=
  if World.refuses file then some .nulInPath else none

/-- What is remarked when the topics in a file are read: how many there are, or a warning that there
are none and why. -/
def remarks (world : World) (file : Text) : List Remark :=
  if World.refuses file then []
  else match read world file with
    | .error failure => [⟨.warning, failure.warning⟩]
    | .ok topics =>
      [⟨.debug, "Loaded ".toList ++ (toString topics.length).toList ++ " help tags from ".toList ++
        Path.tidy file⟩]

end PaneCompletion.HelpTopic
