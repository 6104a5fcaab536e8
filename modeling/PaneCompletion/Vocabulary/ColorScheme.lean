import PaneCompletion.Log
import PaneCompletion.Settings.Misfit

/-!
# Color schemes

A color scheme is a regular file in the directory of color schemes; its name is the file's, less
the customary ending.
-/

namespace PaneCompletion.ColorScheme

/-- The ending of color scheme files. -/
def ending : Text := ".vifm".toList

/-- The scheme in a file. -/
def ofFile (name : Text) : Text :=
  if ending.isSuffixOf name then name.take (name.length - ending.length) else name

/-- Whether an entry is a regular file, links followed; or the path that cannot be followed. -/
def isFile (world : World) (directory : Text) (entry : Text × Node) :
    Except (Text × LookupError) Bool :=
  let path := Path.joined directory entry.1
  match world.target path entry.2 with
  | .ok node => .ok (node.any Node.isFile)
  | .error error => .error (path, error)

/-- The regular files among the entries of a directory whose names begin with no dot. One link that
cannot be followed makes the whole listing fail. -/
def filesAmong (world : World) (directory : Text) :
    List (Text × Node) → Except (Text × LookupError) (List Text)
  | [] => .ok []
  | entry :: rest => do
    let file ← isFile world directory entry
    let names ← filesAmong world directory rest
    return if file && !Text.startsWith entry.1 ['.'] then entry.1 :: names else names

/-- The files in a directory that color schemes may be in; or the path that leads to an error. -/
def filesIn (world : World) (directory : Text) : Except (Text × LookupError) (List Text) :=
  match world.list directory with
  | .ok entries => filesAmong world directory entries
  | .error error => .error (directory, error)

/-- The color schemes in a directory; none where it cannot be listed. -/
def names (world : World) (directory : Text) : List Text :=
  match filesIn world directory with
  | .ok names => names.map ofFile
  | .error _ => []

/-- Why the color schemes in a directory cannot be asked for. -/
def misfit? (directory : Text) : Option Misfit :=
  if World.refuses directory then some .nulInPath else none

/-- What is remarked when the color schemes are looked up: that they cannot be listed. -/
def remarks (world : World) (directory : Text) : List Remark :=
  if World.refuses directory then []
  else match filesIn world directory with
    | .ok _ => []
    | .error (path, error) =>
      [⟨.debug, "Cannot list color schemes in ".toList ++ directory ++ ':' :: ' ' ::
        error.message path⟩]

end PaneCompletion.ColorScheme
