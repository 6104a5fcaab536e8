import PaneCompletion.Text.Quoted

/-!
# The disk

A disk is a flat list of places and what stands there, in the order in which the places first
came; a place is the list of component names that lead to it from the root, so the parent of a
place is found by dropping its last name. Look-up walks along names, follows links wherever they
stand, and gives up after too many of them. A directory may be listed, and names may be looked up in
it, by two permissions that do not depend on each other. Names and paths may be of any length.

1. nodes and places;
2. building a disk;
3. following a list of names.
-/

namespace PaneCompletion

/-- What stands at a place. -/
inductive Node where
  /-- A directory. One that is not listable may be entered but not read; in one that is not
  searchable no name can be looked up. -/
  | directory (listable : Bool) (searchable : Bool := true)
  /-- A regular file. -/
  | file (content : List UInt8) (executable : Bool)
  /-- Something that is neither directory nor regular file. -/
  | special
  /-- A symbolic link. -/
  | link (target : Text)
  deriving DecidableEq

namespace Node

/-- Whether a node is a directory. -/
def isDirectory : Node → Bool
  | .directory _ _ => true
  | _ => false

/-- Whether a node is a regular file. -/
def isFile : Node → Bool
  | .file _ _ => true
  | _ => false

/-- Whether running a node is permitted, which for a directory means to look up names in it. -/
def isRunnable : Node → Bool
  | .directory _ searchable => searchable
  | .file _ executable => executable
  | _ => false

/-- Whether a node is a directory in which names can be looked up. -/
def isSearchable : Node → Bool
  | .directory _ searchable => searchable
  | _ => false

/-- A node as it is once nothing bars the way: a directory in which names can be looked up. -/
def opened : Node → Node
  | .directory listable _ => .directory listable
  | node => node

end Node

/-- The names that lead to a place from the root. -/
abbrev Place := List Text

/-- The places of a disk other than those that are there in any case. -/
structure Disk where
  nodes : List (Place × Node) := []

/-- Why a look-up or reading what it found fails. -/
inductive LookupError where
  | missing
  | notPermitted
  | notDirectory
  /-- A directory stands where a file is to be read. -/
  | isDirectory
  | tooManyLinks
  /-- The path has a NUL in it, and the system is not asked. -/
  | nul
  deriving DecidableEq, Repr

namespace LookupError

/-- The number and the wording by which the system knows an error, if it comes from the system. -/
def known? : LookupError → Option (Nat × Text)
  | .missing => some (2, "No such file or directory".toList)
  | .notPermitted => some (13, "Permission denied".toList)
  | .notDirectory => some (20, "Not a directory".toList)
  | .isDirectory => some (21, "Is a directory".toList)
  | .tooManyLinks => some (40, "Too many levels of symbolic links".toList)
  | .nul => none

/-- The wording where a path is refused because of a NUL. -/
def nulWording : Text := "embedded null byte".toList

/-- The wording of an error that a path has led to. -/
def message (error : LookupError) (path : Text) : Text :=
  match error.known? with
  | some (number, wording) =>
    "[Errno ".toList ++ (toString number).toList ++ ']' :: ' ' :: wording ++ ':' :: ' ' ::
      Text.quoted path
  | none => nulWording

end LookupError

namespace Disk

/-! ## Nodes and places -/

/-- What stands at a place; at the root there is always a directory. -/
def node? (disk : Disk) (place : Place) : Option Node :=
  match disk.nodes.find? (·.1 = place) with
  | some (_, node) => some node
  | none => if place = [] then some (.directory true) else none

/-- The names in a directory with what stands there, in the order in which they first came. -/
def children (disk : Disk) (place : Place) : List (Text × Node) :=
  disk.nodes.filterMap fun (p, node) =>
    match p.getLast? with
    | some name => if p.dropLast = place then some (name, node) else none
    | none => none

/-! ## Building -/

/-- Write a node in its old place in the list, or at the end when it is new. -/
def write (place : Place) (node : Node) : List (Place × Node) → List (Place × Node)
  | [] => [(place, node)]
  | (p, old) :: rest =>
    if p = place then (place, node) :: rest else (p, old) :: write place node rest

/-- Make the directories that are missing on the way from `done` along some names. -/
def makeParents (disk : Disk) (done : Place) : Place → Disk
  | [] => disk
  | [_] => disk
  | name :: next :: rest =>
    let place := done ++ [name]
    let disk := if (disk.node? place).isSome then disk
      else { disk with nodes := disk.nodes ++ [(place, .directory true)] }
    makeParents disk place (next :: rest)

/-- The place that an absolute path names, links not followed. -/
def placeOf (path : Text) : Place := (Text.pieces '/' path).filter (· ≠ [])

/-- Put a node at a path, with the directories on the way. -/
def put (disk : Disk) (path : Text) (node : Node) : Disk :=
  let place := placeOf path
  { nodes := write place node (disk.makeParents [] place).nodes }

/-! ## Following names -/

/-- How far a walk without links comes. -/
inductive Arrival where
  /-- All names are used up. -/
  | here (place : Place) (node : Node)
  /-- The walk cannot go on. -/
  | stuck (error : LookupError)
  /-- A link stands in the way; its directory, its target and the names after it. -/
  | link (directory : Place) (target : Text) (rest : List Text)

/-- Walk along names from a node. Any name needs a directory. An empty one, which stands behind a
slash, asks for nothing else and stays; every other is looked up, which takes permission: a dot
stays, and two dots go to the parent (the root's is the root). -/
def advance (disk : Disk) (place : Place) (node : Node) : List Text → Arrival
  | [] => .here place node
  | name :: rest =>
    if !node.isDirectory then .stuck .notDirectory
    else if name = [] then disk.advance place node rest
    else if !node.isSearchable then .stuck .notPermitted
    else if name = ['.'] then disk.advance place node rest
    else if name = ['.', '.'] then
      disk.advance place.dropLast ((disk.node? place.dropLast).getD (.directory true)) rest
    else match disk.node? (place ++ [name]) with
      | none => .stuck .missing
      | some (.link target) => .link place target rest
      | some child => disk.advance (place ++ [name]) child rest

/-- The most links that one look-up follows. -/
def linkLimit : Nat := 40

/-- Follow names from a place, through at most `links` links; a link's names come before those
that are left, from the root or from the directory of the link. -/
def follow (disk : Disk) (links : Nat) (place : Place) (names : List Text) :
    Except LookupError (Place × Node) :=
  match disk.advance place ((disk.node? place).getD (.directory true)) names with
  | .here place node => .ok (place, node)
  | .stuck error => .error error
  | .link directory target rest =>
    match links with
    | 0 => .error .tooManyLinks
    | links + 1 =>
      if target = [] then .error .missing
      else
        let start := if Text.startsWith target ['/'] then [] else directory
        disk.follow links start (Text.pieces '/' target ++ rest)

/-- The disk with nothing to bar the way. -/
def opened (disk : Disk) : Disk :=
  { nodes := disk.nodes.map fun (place, node) => (place, node.opened) }

end Disk

end PaneCompletion
