import PaneCompletion.Line.Escape
import PaneCompletion.Line.Request
import PaneCompletion.Log
import PaneCompletion.Settings.Misfit
import PaneCompletion.Text.Blank
import PaneCompletion.Vocabulary.Glob

/-!
# Programs for a file

Two tables associate commands with a file: one by patterns its name fits, one by patterns its
content type fits. What is completed is the program of each command, in the order of the tables.

1. the programs;
2. what stands in the way;
3. remarks.
-/

namespace PaneCompletion.FileType

/-! ## The programs -/

/-- Whether one of the patterns in a list separated by commas fits a file name; blanks around a
pattern do not count. -/
def anyFits (patterns name : Text) : Bool :=
  (Text.pieces ',' patterns).any fun pattern =>
    !pattern.isEmpty && Glob.fits (Text.trimmed pattern) name

/-- The commands associated with a file by its name. -/
def commandsByName (associations : Table (List Text)) (name : Text) : List Text :=
  associations.flatMap fun (patterns, commands) => if anyFits patterns name then commands else []

/-- The commands associated with a file by its content type. -/
def commandsByContent (world : World) (handlers : Table (List Text)) (name : Text) : List Text :=
  if name.isEmpty then []
  else match world.contentType name with
    | .ok (some type) => handlers.flatMap fun (pattern, commands) =>
        if Glob.fits pattern type then commands else []
    | _ => []

/-- The name of a command's program, its bars escaped. -/
def programOf (command : Text) : Text := Escape.listed ['|'] (splitProgram command).1

/-- The programs that open a file. -/
def programs (world : World) (byName byContent : Table (List Text)) (name : Text) : List Text :=
  (commandsByName byName name ++ commandsByContent world byContent name).map programOf

/-! ## What stands in the way -/

/-- What the patterns that are fit have for commands, in a table as it was given. -/
def commandsIn (fits : Text → Bool) (table : Json) : Except Misfit (List Json) :=
  if !table.isYes then .ok []
  else match table.members? with
    | none => .error (.noTable table.shape)
    | some members => do
      let found ← (members.filter (fits ·.1)).mapM fun (_, commands) =>
        match commands.parts? with
        | some commands => .ok commands
        | none => .error (.noList commands.shape)
      return found.flatten

/-- The commands for a file, in tables as they were given. -/
def commandsFor (world : World) (byName byContent : Json) (name : Text) :
    Except Misfit (List Json) := do
  let named ← commandsIn (anyFits · name) byName
  if name.isEmpty then return named
  match world.contentType name with
  | .error defect => throw (.noAddress defect)
  | .ok none => return named
  | .ok (some type) => return named ++ (← commandsIn (Glob.fits · type) byContent)

/-- Why the programs for a file cannot be told: a table as it was given does not fit, or the system
refuses the file's name. -/
def misfit? (world : World) (byName byContent : Json) (name : Text) : Option Misfit :=
  match commandsFor world byName byContent name with
  | .error misfit => some misfit
  | .ok commands =>
    (commands.find? (·.text?.isNone)).map fun command => .noText .trimming command.shape

/-! ## Remarks -/

/-- What is remarked when the programs for a file are looked up: a content type that its name does
not suggest. -/
def remarks (world : World) (name : Text) : List Remark :=
  if name.isEmpty then []
  else match world.contentType name with
    | .ok none => [⟨.debug, "Unknown content type for ".toList ++ name⟩]
    | _ => []

end PaneCompletion.FileType
