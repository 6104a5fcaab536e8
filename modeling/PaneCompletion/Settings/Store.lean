import PaneCompletion.Settings.Document
import PaneCompletion.Json.Reader
import PaneCompletion.Json.Printer
import PaneCompletion.Text.Utf8

/-!
# The stored settings

Settings live in a file. A store holds the document in force and what stands at the file's place;
loading reads the file, and saving writes the document over it. A file that cannot be read gives
the initial document and a notice. A change takes effect in memory before it is saved, and stays
there when saving fails.
-/

namespace PaneCompletion

/-- What stands at the place of a settings file. -/
inductive FileSlot where
  /-- Nothing; saving makes the file, and its directory. -/
  | absent
  /-- A regular file with its bytes. -/
  | file (bytes : List UInt8)
  /-- A directory. -/
  | directory
  /-- Nothing, and a regular file where its directory would have to be. -/
  | blocked
  deriving DecidableEq

/-- What is worth a notice in the log. -/
inductive Notice where
  /-- Keys of the file or of a change that are no field. -/
  | unknownKeys (keys : List Text)
  /-- A file that cannot be read as settings. -/
  | unreadable
  /-- A file that cannot be written. -/
  | unwritable
  deriving DecidableEq, Repr

/-- What a notice has the log say. -/
def Notice.remark : Notice → Remark
  | .unknownKeys keys =>
    ⟨.warning, "Ignoring unknown config keys: ".toList ++ Text.joined [',', ' '] keys⟩
  | .unreadable => ⟨.warning, "Error loading config".toList⟩
  | .unwritable => ⟨.error, "Error saving config:".toList⟩

/-- Why settings are not saved. -/
inductive SaveError where
  /-- The directory of the file cannot be made. -/
  | directoryBlocked
  /-- The file's place is taken by a directory. -/
  | isDirectory
  deriving DecidableEq, Repr

/-- The document in force, and what stands at the file's place. -/
structure Store where
  document : Document
  slot : FileSlot

/-- What an operation on a store leaves behind: the store, the notices in order, and why saving
failed, if it did. -/
structure Stored where
  store : Store
  notices : List Notice := []
  error : Option SaveError := none

namespace Store

/-- The notice of an object's keys that are no field. -/
def noticesOf (world : World) (object : Table Json) : List Notice :=
  match Document.unknownKeys world object with
  | [] => []
  | keys => [.unknownKeys keys]

/-- The object in a file. -/
def objectIn (bytes : List UInt8) : Except Json.Defect (Table Json) :=
  match Text.Utf8.decode? bytes with
  | none => .error .malformed
  | some text => do
    match ← Json.read text with
    | .object members => return members
    | _ => .error .malformed

/-- Open a store on a file. -/
def load (world : World) (slot : FileSlot) : Stored :=
  let initial : Store := ⟨Document.initial world, slot⟩
  match slot with
  | .absent | .blocked => { store := initial }
  | .directory => { store := initial, notices := [.unreadable] }
  | .file bytes =>
    match objectIn bytes with
    | .error _ => { store := initial, notices := [.unreadable] }
    | .ok object =>
      { store := ⟨Document.ofObject world object, slot⟩, notices := noticesOf world object }

/-- Open a store on a file, unless values stand too deep in each other there. -/
def load? (world : World) (slot : FileSlot) : Except Misfit Stored :=
  match slot with
  | .file bytes =>
    match objectIn bytes with
    | .error (.tooDeep shape) => .error (.tooDeep shape)
    | _ => .ok (load world slot)
  | _ => .ok (load world slot)

/-- The bytes of a document's file. -/
def bytesOf (document : Document) : List UInt8 :=
  (Json.print document.toJson).map fun c => UInt8.ofNat c.toNat

/-- Write the document to the file: it is emptied when it is opened, and then written in full. That
writing breaks off behind that, as on a full disk, is left out. -/
def save (store : Store) : Stored :=
  match store.slot with
  | .absent | .file _ => { store := { store with slot := .file (bytesOf store.document) } }
  | .directory => { store, notices := [.unwritable], error := some .isDirectory }
  | .blocked => { store, notices := [.unwritable], error := some .directoryBlocked }

/-- Change fields, and save. -/
def update (world : World) (store : Store) (changes : Table Json) : Stored :=
  let object := store.document.changed changes
  let saved := save { store with document := Document.ofObject world object }
  { saved with notices := noticesOf world object ++ saved.notices }

end Store

end PaneCompletion
