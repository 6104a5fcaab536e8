import PaneCompletion.Vocabulary.ColorScheme
import PaneCompletion.Vocabulary.FileType
import PaneCompletion.Vocabulary.HelpTopic
import PaneCompletion.Vocabulary.Matching

/-!
# Vocabularies

A vocabulary is a named source of words for one kind of argument, with the way in which typed text
is compared with them. Some sources are fixed lists, some are read off the world each time.
-/

namespace PaneCompletion

/-- Where the words of a vocabulary come from. -/
inductive Source where
  /-- A fixed list. -/
  | keywords (words : List Text)
  /-- The account names. -/
  | users
  /-- The group names. -/
  | groups
  /-- The names of the environment variables. -/
  | environment
  /-- The programs associated with the current file, by name pattern and by content type. -/
  | fileTypes (byName byContent : Table (List Text))
  /-- The color schemes in a directory. -/
  | colorSchemes (directory : Option Text)
  /-- The options with the kinds of their values. -/
  | options (kinds : Table Text)
  /-- The declared variables. -/
  | declared (names : List Text)
  /-- The builtin functions. -/
  | functions (names : List Text)
  /-- The help topics, from a file unless they are known. -/
  | helpTopics (file : Option Text) (known : Option (List Text))
  deriving DecidableEq, Repr

namespace Source

/-- The words of a source. The current file is what programs are looked up for. -/
def words (world : World) (currentFile : Text) : Source → List Text
  | .keywords words => words
  | .users => world.accounts.map (·.name)
  | .groups => world.groups
  | .environment => world.environment.keys
  | .fileTypes byName byContent => FileType.programs world byName byContent currentFile
  | .colorSchemes directory =>
    match nonEmpty? directory with
    | some directory => ColorScheme.names world directory
    | none => []
  | .options kinds => kinds.keys
  | .declared names => names
  | .functions names => names
  | .helpTopics _ (some topics) => topics
  | .helpTopics (some file) none =>
    match HelpTopic.read world file with
    | .ok topics => topics
    | .error _ => []
  | .helpTopics none none => []

/-- What stands in the way of the words: a value of the settings that they come from and that does
not fit, or a question that the system refuses. -/
def misfit? (world : World) (misfits : Misfits) (currentFile : Text) : Source → Option Misfit
  | .fileTypes _ _ => FileType.misfit? world misfits.fileTypes misfits.contentHandlers currentFile
  | .colorSchemes directory =>
    misfits.colorsDirectory.or ((nonEmpty? directory).bind ColorScheme.misfit?)
  | .options _ => misfits.options
  | .declared _ => misfits.variableNames
  | .functions _ => misfits.functionNames
  | .helpTopics (some file) none => HelpTopic.misfit? file
  | _ => none

/-- The source once its words have been asked for: help topics are read only once. -/
def settled (world : World) : Source → Source
  | .helpTopics file none =>
    if (file.bind HelpTopic.misfit?).isSome then .helpTopics file none
    else .helpTopics file (some ((Source.helpTopics file none).words world []))
  | source => source

/-- What is remarked when the words are asked for. -/
def remarks (world : World) (currentFile : Text) : Source → List Remark
  | .fileTypes _ _ => FileType.remarks world currentFile
  | .colorSchemes directory =>
    match nonEmpty? directory with
    | some directory => ColorScheme.remarks world directory
    | none => []
  | .helpTopics (some file) none => HelpTopic.remarks world file
  | _ => []

/-- The options that are switches. -/
def switches : Source → List Text
  | .options kinds => (kinds.filter (·.2 = "bool".toList)).map (·.1)
  | _ => []

/-- What is wrong with the names of the options that are switches. -/
def switchMisfit? (misfits : Misfits) : Source → Option Misfit
  | .options _ => misfits.switches
  | _ => none

end Source

/-- A named source of words. -/
structure Vocabulary where
  name : Text
  description : Text
  matching : Matching
  source : Source
  deriving DecidableEq, Repr

namespace Vocabulary

/-- The words of a vocabulary. -/
def words (vocabulary : Vocabulary) (world : World) (currentFile : Text) : List Text :=
  vocabulary.source.words world currentFile

/-- The words of a vocabulary that match a typed text. -/
def matchingWords (vocabulary : Vocabulary) (world : World) (ignoreCase : Bool)
    (currentFile typed : Text) : List Text :=
  (vocabulary.words world currentFile).filter fun word =>
    vocabulary.matching.accepts ignoreCase word typed

end Vocabulary

end PaneCompletion
