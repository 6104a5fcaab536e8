import PaneCompletion.Settings.Basic
import PaneCompletion.Vocabulary.Basic
import PaneCompletion.Vocabulary.Highlight

/-!
# Lexicons

A lexicon holds vocabularies by name, in the order in which the names first came. `standard` are
the ones that settings give rise to: seven fixed lists and nine that look at accounts, environment,
disk or settings.

1. entering vocabularies;
2. asking for words;
3. the standard vocabularies.
-/

namespace PaneCompletion

/-- Vocabularies by name. -/
abbrev Lexicon := Table Vocabulary

namespace Lexicon

/-! ## Entering vocabularies -/

/-- Enter a vocabulary, in place of one of the same name. -/
def enter (lexicon : Lexicon) (vocabulary : Vocabulary) : Lexicon :=
  lexicon.put vocabulary.name vocabulary

/-- What is remarked on an entry: another vocabulary loses its name. -/
def entryRemark? (lexicon : Lexicon) (vocabulary : Vocabulary) : Option Remark :=
  (lexicon.get? vocabulary.name).map fun _ =>
    ⟨.warning, "Provider ".toList ++ vocabulary.name ++ " already registered, overwriting".toList⟩

/-- Enter vocabularies in order. -/
def enterAll (lexicon : Lexicon) (vocabularies : List Vocabulary) : Lexicon :=
  vocabularies.foldl enter lexicon

/-- What is remarked on entering vocabularies in order. -/
def entryRemarks (lexicon : Lexicon) : List Vocabulary → List Remark
  | [] => []
  | vocabulary :: rest =>
    (lexicon.entryRemark? vocabulary).toList ++ entryRemarks (lexicon.enter vocabulary) rest

/-! ## Asking for words -/

/-- The lexicon once the words of the vocabulary of a name have been asked for. -/
def consulted (lexicon : Lexicon) (world : World) (name : Text) : Lexicon :=
  match lexicon.get? name with
  | none => lexicon
  | some vocabulary =>
    lexicon.put name { vocabulary with source := vocabulary.source.settled world }

/-- What is remarked when the words of the vocabulary of a name are asked for. -/
def remarks (lexicon : Lexicon) (world : World) (name : Text) (currentFile : Text := []) :
    List Remark :=
  match lexicon.get? name with
  | none => []
  | some vocabulary => vocabulary.source.remarks world currentFile

/-- What stands in the way of the words of the vocabulary of a name. -/
def misfit? (lexicon : Lexicon) (world : World) (misfits : Misfits) (name : Text)
    (currentFile : Text := []) : Option Misfit :=
  (lexicon.get? name).bind (·.source.misfit? world misfits currentFile)

end Lexicon

namespace Vocabulary

/-! ## The standard vocabularies -/

/-- A fixed list of words. -/
def ofKeywords (name description : String) (words : List Text) : Vocabulary :=
  ⟨name.toList, description.toList, .ignoreCase, .keywords words⟩

/-- The kinds of history, each search sign next to its names. -/
def historyKinds : List Text :=
  [".", "dir", "@", "input", "/", "search", "fsearch", "?", "bsearch", ":", "cmd", "=",
    "filter"].map String.toList

/-- The fixed lists. -/
def fixed : List Vocabulary :=
  [ofKeywords "history" "History kinds" historyKinds,
    ofKeywords "invert" "Selection inversion flags" (["f", "s", "o"].map String.toList),
    ofKeywords "winrun" "Window run markers" (["^", "$", "%", ".", ","].map String.toList),
    ofKeywords "highlight_groups" "Highlight groups" Highlight.groups,
    ofKeywords "highlight_attributes" "Highlight attributes" Highlight.attributes,
    ofKeywords "styles" "Text styles" Highlight.styles,
    ofKeywords "colors" "Color names" Highlight.colors]

/-- The vocabulary of the account names. -/
def ofUsers : Vocabulary := ⟨"users".toList, "User account names".toList, .exact, .users⟩

/-- The vocabulary of the group names. -/
def ofGroups : Vocabulary := ⟨"groups".toList, "Group names".toList, .exact, .groups⟩

/-- The vocabulary of the environment variables. -/
def ofEnvironment : Vocabulary :=
  ⟨"environment".toList, "Environment variable names".toList, .exact, .environment⟩

/-- The vocabulary of the options. -/
def ofOptions (kinds : Table Text) : Vocabulary :=
  ⟨"options".toList, "Option names".toList, .exact, .options kinds⟩

/-- The vocabulary of the declared variables. -/
def ofDeclared (names : List Text) : Vocabulary :=
  ⟨"variables".toList, "Declared variables".toList, .exact, .declared names⟩

/-- The vocabulary of the builtin functions. -/
def ofFunctions (names : List Text) : Vocabulary :=
  ⟨"functions".toList, "Builtin functions".toList, .exact, .functions names⟩

/-- The vocabulary of the programs for the current file. -/
def ofFileTypes (byName byContent : Table (List Text)) : Vocabulary :=
  ⟨"filetypes".toList, "Programs associated with the current file".toList, .fileNames,
    .fileTypes byName byContent⟩

/-- The vocabulary of the color schemes in a directory. -/
def ofColorSchemes (directory : Option Text) : Vocabulary :=
  ⟨"colorschemes".toList, "Declared color schemes".toList, .fileNames, .colorSchemes directory⟩

/-- The vocabulary of the help topics. -/
def ofHelpTopics (file : Option Text) (known : Option (List Text)) : Vocabulary :=
  ⟨"help".toList, "Help topics".toList, .anywhere, .helpTopics file known⟩

/-- The vocabularies that settings give rise to, in order. -/
def standard (settings : Settings) : List Vocabulary :=
  fixed ++
    [ofUsers, ofGroups, ofEnvironment,
      ofFileTypes settings.fileTypes settings.contentHandlers,
      ofColorSchemes settings.colorsDirectory,
      ofOptions settings.options,
      ofDeclared settings.variableNames,
      ofFunctions settings.functionNames,
      ofHelpTopics (nonEmpty? settings.helpTags) none]

end Vocabulary

/-- The lexicon that settings give rise to. -/
def Lexicon.ofSettings (settings : Settings) : Lexicon :=
  Lexicon.enterAll [] (Vocabulary.standard settings)

end PaneCompletion
