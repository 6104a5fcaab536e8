import PaneCompletion.Path.Platform

/-!
# Extensions

Two rules split a name at a dot. `splitExtension` is the file manager's: a dot that opens the base
name does not count, and a `tar` before the extension belongs to it. `splitSuffix` is the shell
convention: all leading dots of the base name are skipped and the suffix keeps its dot.
-/

namespace PaneCompletion.Path

/-- The offset of the dot that begins an extension: the last dot of the base name, unless it opens
it. -/
def extensionDot? (path : Text) : Option Nat :=
  match Text.lastIndex? '.' path with
  | none => none
  | some dot => if dot ≤ Text.reach '/' path then none else some dot

/-- A path in two: the root, and the extension without its dot. -/
def splitExtension (os : Platform) (path : Text) : Text × Text :=
  match extensionDot? path with
  | none => (path, [])
  | some dot =>
    let root := path.take dot
    let dot :=
      match extensionDot? root with
      | some inner => if os.same (root.drop (inner + 1)) ['t', 'a', 'r'] then inner else dot
      | none => dot
    (path.take dot, path.drop (dot + 1))

/-- The extension of a path without its dot. -/
def extension (os : Platform) (path : Text) : Text := (splitExtension os path).2

/-- A path in two: the stem, and the suffix from the last dot of the base name on. A base name of
dots alone up to there has no suffix. -/
def splitSuffix (path : Text) : Text × Text :=
  let start := Text.reach '/' path
  match Text.lastIndex? '.' path with
  | none => (path, [])
  | some dot =>
    if ((path.take dot).drop start).any (· ≠ '.') then (path.take dot, path.drop dot)
    else (path, [])

end PaneCompletion.Path
