import PaneCompletion.World.ContentType
import PaneCompletion.World.Disk
import PaneCompletion.Path.Basic
import PaneCompletion.Table

/-!
# The world a completion looks at

Environment variables, accounts, the working directory, the disk, the content types that the system
knows and the platform's rules, as one value: every completion is a function of it. The functions
here are the questions asked of it; each takes a path as text, relative paths from the working
directory.
-/

namespace PaneCompletion

/-- A user account. -/
structure Account where
  name : Text
  home : Text
  deriving DecidableEq, Repr

/-- All that lies outside the program. -/
structure World where
  platform : Platform := .posix
  environment : Table Text := []
  accounts : List Account := []
  /-- The account under which the program runs. -/
  user : Option Account := none
  groups : List Text := []
  workingDirectory : Text := ['/']
  disk : Disk := {}
  /-- The content type that the name of a file suggests to the system. It has tables of its own and
  reads names as addresses, which some are not; here it is one that has nothing of this. -/
  contentType : Text → Except ContentType.Defect (Option Text) :=
    fun name => .ok (ContentType.guess? name)

namespace World

/-! ## Looking up -/

/-- The place of the working directory. The program is there, so nothing bars the way to it. -/
def here (world : World) : Except LookupError Place :=
  (world.disk.opened.follow Disk.linkLimit [] (Text.pieces '/' world.workingDirectory)).map (·.1)

/-- The place from which a path is followed. -/
def origin (world : World) (path : Text) : Except LookupError Place :=
  if Text.startsWith path ['/'] then .ok [] else world.here

/-- Whether a text is no path, so that the system is not asked about it: one with a NUL in it. -/
def refuses (path : Text) : Bool := path.contains '\x00'

/-- The place that a path names and what stands there, links followed at every component. An empty
path names nothing. -/
def locate (world : World) (path : Text) : Except LookupError (Place × Node) :=
  if refuses path then .error .nul
  else if path.isEmpty then .error .missing
  else do
    let place ← world.origin path
    world.disk.follow Disk.linkLimit place (Text.pieces '/' path)

/-- What a path names. -/
def lookup (world : World) (path : Text) : Except LookupError Node :=
  (world.locate path).map (·.2)

/-- Whether a path names a directory. -/
def isDirectory (world : World) (path : Text) : Bool :=
  match world.lookup path with
  | .ok node => node.isDirectory
  | .error _ => false

/-- Whether a path names a directory in which names can be looked up. -/
def isSearchable (world : World) (path : Text) : Bool :=
  match world.lookup path with
  | .ok node => node.isSearchable
  | .error _ => false

/-- Whether a path names a regular file. -/
def isFile (world : World) (path : Text) : Bool :=
  match world.lookup path with
  | .ok node => node.isFile
  | .error _ => false

/-- The bytes of the file that a path names; of one that is not regular, none. -/
def read (world : World) (path : Text) : Except LookupError (List UInt8) :=
  match world.lookup path with
  | .error error => .error error
  | .ok (.directory _ _) => .error .isDirectory
  | .ok (.file content _) => .ok content
  | .ok _ => .ok []

/-- The names in the directory that a path names, links not followed. -/
def list (world : World) (path : Text) : Except LookupError (List (Text × Node)) :=
  match world.locate path with
  | .error error => .error error
  | .ok (place, .directory true _) => .ok (world.disk.children place)
  | .ok (_, .directory false _) => .error .notPermitted
  | .ok _ => .error .notDirectory

/-- What an entry of a directory is once its link is followed. A link into nowhere is nothing. -/
def target (world : World) (path : Text) (node : Node) : Except LookupError (Option Node) :=
  match node with
  | .link _ =>
    match world.lookup path with
    | .ok node => .ok (some node)
    | .error .missing => .ok none
    | .error error => .error error
  | node => .ok (some node)

/-! ## Environment variables -/

/-- The value of an environment variable. -/
def value? (world : World) (name : Text) : Option Text := world.environment.get? name

/-! ## Executables -/

/-- The suffixes of executable files on Windows, when no variable lists others. -/
def defaultSuffixes : Text := ".COM;.EXE;.BAT;.CMD".toList

/-- Whether a path names a regular file that may be run: one with the permission, or on Windows one
with a listed suffix, letter case aside. -/
def isExecutable (world : World) (path : Text) : Bool :=
  match world.lookup path with
  | .ok node =>
    node.isFile &&
      match world.platform with
      | .posix => node.isRunnable
      | .windows =>
        let listed := (world.value? "PATHEXT".toList).getD defaultSuffixes
        (Text.pieces ';' (Text.lower listed)).contains (Text.lower (Path.splitSuffix path).2)
  | .error _ => false

end World

end PaneCompletion
