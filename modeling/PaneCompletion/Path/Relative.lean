import PaneCompletion.Path.Canonical

/-!
# Relative paths

`relative path base` is how to reach `path` from `base`: the shared leading components are matched
whole, each component of the base that is left is climbed out of, and what is left of the path
follows.
-/

namespace PaneCompletion.Path

/-- The offsets in a text, whose head has offset `start`, at which a component ends: each slash, and
the end of the text when no slash stands there. -/
def endsFrom (start : Nat) : Text → List Nat
  | [] => []
  | [c] => [if c = '/' then start else start + 1]
  | c :: next :: rest =>
    if c = '/' then start :: endsFrom (start + 1) (next :: rest)
    else endsFrom (start + 1) (next :: rest)

/-- The offsets at which the leading components of a path end. The first character never ends
one. -/
def componentEnds : Text → List Nat
  | [] => []
  | _ :: rest => endsFrom 1 rest

/-- Walk along the component ends of two paths while both have them at the same offset and agree up
to there; the last such offset, or `shared` where the walk stops at once. -/
def sharedEnd (os : Platform) (path base : Text) (shared : Nat) : List (Nat × Nat) → Nat
  | [] => shared
  | (p, b) :: more =>
    if p = b ∧ os.same (path.take p) (base.take b) then sharedEnd os path base p more else shared

/-- Whether two paths begin with different drives. -/
def onDifferentDrives (os : Platform) (path base : Text) : Bool :=
  os == .windows && path[1]? == some ':' && base[1]? == some ':' &&
    !os.same (path.take 1) (base.take 1)

/-- The number of components of a canonical path that are no dot. -/
def depth (path : Text) : Nat :=
  (Text.pieces '/' path).countP fun component => component ≠ [] ∧ component ≠ ['.']

/-- A number of steps up. -/
def climb (n : Nat) : Text := (List.replicate n ['.', '.', '/']).flatten

/-- The path that leads from directory `base` to `path`, without a slash at its end; a dot when the
two are the same. On Windows a path on another drive is answered as it is. -/
def relative (os : Platform) (path base : Text) : Text :=
  let path := dropSlash (canonical os path)
  let base := dropSlash (canonical os base)
  if onDifferentDrives os path base then path
  else
    let shared := sharedEnd os path base 0 ((componentEnds path).zip (componentEnds base))
    let ups := climb (depth (canonical os (base.drop shared)))
    let rest := path.drop shared
    let rest := if Text.startsWith rest ['/'] then rest.drop 1 else rest
    let tail := canonical os rest ((limit : Int) - ups.length)
    let result := dropSlash (if rest.isEmpty ∨ tail = ['.', '/'] then ups else ups ++ tail)
    if result.isEmpty then ['.'] else result

end PaneCompletion.Path
