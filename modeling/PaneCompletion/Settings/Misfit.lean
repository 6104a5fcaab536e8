import PaneCompletion.Json.Value
import PaneCompletion.World.Home

/-!
# Values that do not fit

Settings are written by hand, so a value may have another shape than its field asks for. Most
fields are looked at only when a request needs them, and a value that does not fit stands in the way
of that request alone; what is needed to make the vocabularies stands in the way of everything. A
document that nests too deep and an environment without a home directory are misfits too, and so is
what the system refuses to be asked: about a path with a NUL, or about the content type of a name
that it takes for an address.
-/

namespace PaneCompletion

/-- What a text is needed for. -/
inductive TextUse where
  /-- To see whether it begins with what is typed. -/
  | comparing
  /-- To see whether it ends in a slash. -/
  | extending
  /-- To skip the blanks in front of it. -/
  | trimming
  deriving DecidableEq, Repr

/-- The name by which messages speak of a use. -/
def TextUse.name : TextUse → Text
  | .comparing => "startswith".toList
  | .extending => "endswith".toList
  | .trimming => "lstrip".toList

/-- Why a value cannot be put to use. -/
inductive Misfit where
  /-- A tilde asks for a home directory, and there is none. -/
  | noHome (error : World.HomeError)
  /-- A path that the system is asked about has a NUL in it. -/
  | nulInPath
  /-- A name is no address, where the system takes it for one. -/
  | noAddress (defect : ContentType.Defect)
  /-- An array or object that stands too deep in others. -/
  | tooDeep (shape : Json.Shape)
  /-- A value where a file's path belongs. -/
  | noPath (shape : Json.Shape)
  /-- A value where several things are listed. -/
  | noList (shape : Json.Shape)
  /-- A value where patterns have their commands. -/
  | noTable (shape : Json.Shape)
  /-- A value where a text belongs. -/
  | noText (use : TextUse) (shape : Json.Shape)
  /-- A value in front of which the sign of a switch belongs. -/
  | noSwitch (shape : Json.Shape)
  /-- Of the options listed, one that has no parts at all. -/
  | noPair (index : Nat)
  /-- Of the options listed, one with another number of parts than two. -/
  | unpaired (index parts : Nat)
  /-- A value under which nothing can be looked up. -/
  | noKey (shape : Json.Shape)
  deriving DecidableEq, Repr

/-- The wording of a misfit. -/
def Misfit.message : Misfit → Text
  | .noHome error => error.message
  | .nulInPath => LookupError.nulWording
  | .noAddress defect => defect.wording
  | .tooDeep shape =>
    "maximum recursion depth exceeded while decoding a JSON ".toList ++
      (if shape = .array then "array".toList else "object".toList) ++
      " from a unicode string".toList
  | .noPath shape => "expected str, bytes or os.PathLike object, not ".toList ++ shape.name
  | .noList shape => '\'' :: shape.name ++ "' object is not iterable".toList
  | .noTable shape => '\'' :: shape.name ++ "' object has no attribute 'items'".toList
  | .noText use shape =>
    '\'' :: shape.name ++ "' object has no attribute '".toList ++ use.name ++ ['\'']
  | .noSwitch shape =>
    "can only concatenate str (not \"".toList ++ shape.name ++ "\") to str".toList
  | .noPair index =>
    "cannot convert dictionary update sequence element #".toList ++ (toString index).toList ++
      " to a sequence".toList
  | .unpaired index parts =>
    "dictionary update sequence element #".toList ++ (toString index).toList ++
      " has length ".toList ++ (toString parts).toList ++ "; 2 is required".toList
  | .noKey shape => "unhashable type: '".toList ++ shape.name ++ ['\'']

/-- What is wrong with the values of settings that are looked at only when they are needed. -/
structure Misfits where
  /-- The home directory. -/
  home : Option Misfit := none
  /-- The directory of the color schemes. -/
  colorsDirectory : Option Misfit := none
  /-- The names of the options. -/
  options : Option Misfit := none
  /-- The names of the options before the first that does not fit. -/
  optionsBefore : List Text := []
  /-- The names of the options that are switches. -/
  switches : Option Misfit := none
  /-- The declared variables. -/
  variableNames : Option Misfit := none
  /-- The builtin functions. -/
  functionNames : Option Misfit := none
  /-- The commands that open files, as they were given. -/
  fileTypes : Json := .object []
  /-- The commands that handle a content type, as they were given. -/
  contentHandlers : Json := .object []

end PaneCompletion
