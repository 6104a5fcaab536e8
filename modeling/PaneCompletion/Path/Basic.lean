import PaneCompletion.Path.Platform
import PaneCompletion.Text.Letter

/-!
# Questions about a path's text

Paths are texts; nothing here looks at a disk. The tests say how a path is anchored, `joined`
continues one path by another, and `startsWith` is containment on separator boundaries.
-/

namespace PaneCompletion.Path

/-! ## Separators -/

/-- A path without one slash at its end. -/
def dropSlash (path : Text) : Text := if Text.endsIn '/' path then path.dropLast else path

/-- Whether a path ends in a slash. -/
def endsInSlash (path : Text) : Bool := Text.endsIn '/' path

/-- Whether a text has a separator in it: a slash, or on Windows a backslash. -/
def hasSeparator (os : Platform) (path : Text) : Bool :=
  path.contains '/' || (os == .windows && path.contains '\\')

/-- `path` as seen from directory `base`: an absolute path stands alone. -/
def joined (base path : Text) : Text :=
  if Text.startsWith path ['/'] then path
  else if base.isEmpty || Text.endsIn '/' base then base ++ path
  else base ++ '/' :: path

/-! ## Anchors -/

/-- Whether a path begins with a drive, a letter and a colon. -/
def hasDrive : Text → Bool
  | letter :: ':' :: _ => Text.isLetter letter
  | _ => false

/-- Whether a path begins with two slashes that no third one follows. -/
def hasTwoSlashes : Text → Bool
  | '/' :: '/' :: rest => !Text.startsWith rest ['/']
  | _ => false

/-- Whether a path names its place without reference to a working directory. -/
def isAbsolute (os : Platform) (path : Text) : Bool :=
  (os == .windows && (hasDrive path || Text.startsWith path ['/', '/'])) ||
    Text.startsWith path ['/']

/-- Whether a path names something on a network host. -/
def isShare (os : Platform) (path : Text) : Bool := os == .windows && hasTwoSlashes path

/-- Whether a path names a network host and nothing on it. -/
def isShareRoot (os : Platform) (path : Text) : Bool :=
  isShare os path && 2 < path.length &&
    match Text.firstIndex? '/' (path.drop 2) with
    | none => true
    | some i => i + 3 == path.length

/-- Whether a path is the root of a drive. -/
def isDriveRoot : Text → Bool
  | [letter, ':', '/'] => Text.isLetter letter
  | _ => false

/-- Whether a path is a root: `/`, a drive's root or a host. -/
def isRoot (os : Platform) (path : Text) : Bool :=
  (os == .windows && (isDriveRoot path || isShareRoot os path)) || path == ['/']

/-- Whether a path is the parent directory, with or without a slash. -/
def isParent (path : Text) : Bool := path == ['.', '.'] || path == ['.', '.', '/']

/-- Whether a name is one of the two that every directory has. -/
def isDotName (name : Text) : Bool := name == ['.'] || name == ['.', '.']

/-! ## Containment -/

/-- What can go wrong when two paths are compared. -/
inductive Error where
  /-- The folded beginnings agree, but the path is shorter than the beginning it is tested for, so
  no character follows there. -/
  | pastEnd
  deriving DecidableEq, Repr

/-- The wording of an error. -/
def Error.message : Error → Text
  | .pastEnd => "string index out of range".toList

/-- Whether `path` is `beginning` or lies inside it. The beginning counts without a slash at its
end, and it has to end where a component of the path ends. -/
def startsWith (os : Platform) (path beginning : Text) : Except Error Bool :=
  let stem := dropSlash beginning
  if os.same (path.take stem.length) stem then
    if path.length = stem.length then .ok true
    else match path[stem.length]? with
      | some c => .ok (c == '/')
      | none => .error .pastEnd
  else .ok false

end PaneCompletion.Path
