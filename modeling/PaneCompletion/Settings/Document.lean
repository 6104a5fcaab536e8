import PaneCompletion.Settings.Basic
import PaneCompletion.Json.Value
import PaneCompletion.Text.Order

/-!
# Settings as a document

Settings are kept as a JSON object with a fixed set of fields. A document holds a value for each
field, whatever its shape; `settings` reads off what the completion engine needs. Keys that are no
field are passed over, and reported.
-/

namespace PaneCompletion

/-- The values of the fields, in the order in which they are written. -/
structure Document where
  fields : Table Json

namespace Document

/-- The fields with the values they have when none is given. -/
def defaults (home : Text) : Table Json :=
  [("home_dir".toList, .string home), ("case_insensitive_paths".toList, .bool false),
    ("use_vim_help".toList, .bool false), ("help_tags_file".toList, .null),
    ("colors_dir".toList, .null), ("filetypes".toList, .object []),
    ("mime_handlers".toList, .object []), ("options".toList, .object []),
    ("variables".toList, .array []), ("functions".toList, .array [])]

/-- The document of a world in which nothing has been set. -/
def initial (world : World) : Document := ⟨defaults world.homeDirectory⟩

/-- The document that an object gives: its value for each field it has, the default for the
others. -/
def ofObject (world : World) (object : Table Json) : Document :=
  ⟨(defaults world.homeDirectory).map fun (name, value) =>
    (name, (object.get? name).getD value)⟩

/-- The keys of an object that are no field, sorted. -/
def unknownKeys (world : World) (object : Table Json) : List Text :=
  sortTexts (object.keys.filter fun key => !(defaults world.homeDirectory).keys.contains key)

/-- The object that a document with changes gives. -/
def changed (document : Document) (changes : Table Json) : Table Json :=
  changes.foldl (fun table change => table.put change.1 change.2) document.fields

/-- The document as a JSON value. -/
def toJson (document : Document) : Json := .object document.fields

/-- The value of a field. -/
def field (document : Document) (name : String) : Json :=
  (document.fields.get? name.toList).getD .null

/-! ## Reading the fields -/

/-- The words among some values. -/
def wordsOf (values : List Json) : List Text := values.filterMap Json.text?

/-- Why some values cannot all be compared with what is typed: the first of them that is no text. -/
def wordMisfit? (values : List Json) : Option Misfit :=
  (values.find? (·.text?.isNone)).map fun value => .noText .comparing value.shape

/-- What a value lists; nothing when it counts as no. -/
def listed (value : Json) : Except Misfit (List Json) :=
  if !value.isYes then .ok []
  else match value.parts? with
    | some parts => .ok parts
    | none => .error (.noList value.shape)

/-- The path that a value is; none when it counts as no. -/
def pathOf? (value : Json) : Except Misfit (Option Text) :=
  if !value.isYes then .ok none
  else match value with
    | .string text => .ok (some text)
    | value => .error (.noPath value.shape)

/-- An option among those listed, with its kind: two parts, of which the first is neither array nor
object. -/
def optionOf (item : Json × Nat) : Except Misfit (Json × Json) :=
  match item.1.parts? with
  | none => .error (.noPair item.2)
  | some [.array _, _] => .error (.noKey .array)
  | some [.object _, _] => .error (.noKey .object)
  | some [key, kind] => .ok (key, kind)
  | some parts => .error (.unpaired item.2 parts.length)

/-- The options that a value gives with their kinds: the members of an object, or the pairs that are
listed. -/
def optionsOf : Json → Except Misfit (List (Json × Json))
  | .object members => .ok (members.map fun (key, kind) => (.string key, kind))
  | value => do (← listed value).zipIdx.mapM optionOf

/-- The options that are named by texts, each once, with their kinds; a kind that is no text is
empty. -/
def kindsOf (options : List (Json × Json)) : Table Text :=
  Table.ofPairs (options.filterMap fun (key, kind) =>
    key.text?.map fun name => (name, kind.text?.getD []))

/-- The options that are not named by texts, each once, with their kinds. -/
def straysOf (options : List (Json × Json)) : List (Json × Json) :=
  options.foldl (fun strays option =>
    if option.1.text?.isSome then strays else Json.putUnder option.1 option.2 strays) []

/-- The patterns that an object has for keys, with the commands that each lists. -/
def commandsOf (table : Json) : Table (List Text) :=
  (table.members?.getD []).map fun (pattern, commands) =>
    (pattern, wordsOf (commands.parts?.getD []))

/-! ## Settings -/

/-- What is wrong with the values that are looked at only when they are needed. -/
def misfits (document : Document) : Misfits :=
  let home := document.field "home_dir"
  let options := (optionsOf (document.field "options")).toOption.getD []
  let strays := straysOf options
  { home := match home with
      | .null | .string _ => none
      | value => some (.noText .extending value.shape)
    colorsDirectory := match pathOf? (document.field "colors_dir") with
      | .ok _ => none
      | .error misfit => some misfit
    options := strays.head?.map fun stray => .noText .comparing stray.1.shape
    optionsBefore := (kindsOf (options.takeWhile (·.1.text?.isSome))).keys
    switches := (strays.find? (·.2.text? = some "bool".toList)).map fun stray =>
      .noSwitch stray.1.shape
    variableNames := wordMisfit? ((listed (document.field "variables")).toOption.getD [])
    functionNames := wordMisfit? ((listed (document.field "functions")).toOption.getD [])
    fileTypes := document.field "filetypes"
    contentHandlers := document.field "mime_handlers" }

/-- The settings that a document stands for. A value that does not fit counts as if it were not
given. -/
def settings (document : Document) : Settings :=
  { home := (document.field "home_dir").text?
    ignoreCase := (document.field "case_insensitive_paths").isYes
    vimHelp := (document.field "use_vim_help").isYes
    helpTags := (document.field "help_tags_file").text?
    colorsDirectory := (document.field "colors_dir").text?
    fileTypes := commandsOf (document.field "filetypes")
    contentHandlers := commandsOf (document.field "mime_handlers")
    options := kindsOf ((optionsOf (document.field "options")).toOption.getD [])
    variableNames := wordsOf ((listed (document.field "variables")).toOption.getD [])
    functionNames := wordsOf ((listed (document.field "functions")).toOption.getD [])
    misfits := document.misfits }

/-- The settings that a document stands for, unless a value does not fit without which the
vocabularies cannot be made. The first such value counts. -/
def settings? (document : Document) : Except Misfit Settings := do
  let _ ← pathOf? (document.field "help_tags_file")
  let _ ← optionsOf (document.field "options")
  let _ ← listed (document.field "variables")
  let _ ← listed (document.field "functions")
  return document.settings

end Document

end PaneCompletion
