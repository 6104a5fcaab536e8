import PaneCompletion.World.Home

/-!
# Search lists

The directories in which external programs are looked for, in order and each once, and the look-up
of a program in them. Where no home directory is known, a list with a tilde in it cannot be made:
the forms with a question mark say so.
-/

namespace PaneCompletion

/-- Directories to search, in order. -/
structure SearchList where
  directories : List Text := []
  deriving DecidableEq, Repr

namespace SearchList

/-- Add a directory at the end, its tilde written out; an empty text and a directory that is there
already change nothing. -/
def add (world : World) (list : SearchList) (directory : Text) : SearchList :=
  if directory.isEmpty then list
  else
    let directory := world.expandTilde world.homeDirectory directory
    if list.directories.contains directory then list
    else { directories := list.directories ++ [directory] }

/-- Add a directory, if a tilde in front of it can be written out. -/
def add? (world : World) (list : SearchList) (directory : Text) :
    Except World.HomeError SearchList :=
  match world.tildeError? directory with
  | some error => .error error
  | none => .ok (add world list directory)

/-- The list of some directories. -/
def ofList (world : World) (directories : List Text) : SearchList :=
  directories.foldl (add world) {}

/-- The list of some directories, if the home directory is known that a tilde asks for. -/
def ofList? (world : World) (directories : List Text) : Except World.HomeError SearchList :=
  directories.foldlM (add? world) {}

/-- The list that a text with colons between its directories gives. -/
def ofText (world : World) (text : Text) : SearchList := ofList world (Text.pieces ':' text)

/-- The list that a text gives, if the home directory is known that a tilde asks for. -/
def ofText? (world : World) (text : Text) : Except World.HomeError SearchList :=
  ofList? world (Text.pieces ':' text)

/-- The directories that the environment names, with colons between them. -/
def stated (world : World) : Text := (world.value? "PATH".toList).getD []

/-- The list that the environment gives. -/
def ofEnvironment (world : World) : SearchList := ofText world (stated world)

/-- The list that the environment gives, if the home directory is known that a tilde asks for. -/
def ofEnvironment? (world : World) : Except World.HomeError SearchList :=
  ofText? world (stated world)

/-- The list itself, or the environment's when none is given. -/
def orEnvironment (world : World) (list : Option SearchList) : SearchList :=
  list.getD (ofEnvironment world)

/-- The list itself, or the environment's if there is one. -/
def orEnvironment? (world : World) : Option SearchList → Except World.HomeError SearchList
  | some list => .ok list
  | none => ofEnvironment? world

/-- What is remarked when the list of the environment is made. -/
def remarks (world : World) : List Remark :=
  (Text.pieces ':' (stated world)).flatMap world.tildeRemarks

/-- The path of a program: the name itself when it has a separator in it, else the first executable
file of that name in a directory of the list. -/
def find? (world : World) (list : SearchList) (name : Text) : Option Text :=
  if Path.hasSeparator world.platform name then some name
  else (list.directories.map (Path.joined · name)).find? world.isExecutable

/-- The path of a program whose name may have two exclamation marks in front. -/
def findMarked? (world : World) (list : SearchList) (name : Text) : Option Text :=
  list.find? world (if Text.startsWith name ['!', '!'] then name.drop 2 else name)

/-- Whether a name is that of an executable file. -/
def provides (world : World) (list : SearchList) (name : Text) : Bool :=
  match list.findMarked? world name with
  | some path => world.isExecutable path
  | none => false

end SearchList

end PaneCompletion
