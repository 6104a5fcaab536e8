import PaneCompletion.Path.Basic

/-!
# Canonical paths

`canonical` simplifies a path by its text alone. The components run through a stack: a dot is
dropped (one that opens a relative path stays as its anchor), a double dot takes the component
before it away, and what is left is written with one slash after each. The result is cut to a
capacity by whole components.

1. components and the stack;
2. the anchor of a Windows path;
3. writing and cutting;
4. `canonical` and equality of paths.
-/

namespace PaneCompletion.Path

/-- Capacity of every path, with one place that the text may not fill. -/
def limit : Nat := 4096

/-! ## Components -/

/-- Whether a component stands for the directory it is in: a dot, on Windows also any run of more
than two. -/
def isHere (os : Platform) (component : Text) : Bool :=
  component == ['.'] ||
    (os == .windows && 2 < component.length && component.all (· == '.'))

/-- Apply `..` to a stack of components, innermost first. At the root it has no effect; a path that
has nothing left to leave keeps it. -/
def leave (rooted : Bool) : List Text → List Text
  | [] => if rooted then [] else [['.', '.']]
  | top :: below =>
    if top = ['.', '.'] then (if rooted then top :: below else ['.', '.'] :: top :: below)
    else if top = ['.'] then ['.', '.'] :: below
    else below

/-- Put a component on the stack, innermost first. -/
def enter (os : Platform) (rooted : Bool) (stack : List Text) (component : Text) : List Text :=
  if component = [] then stack
  else if isHere os component then stack
  else if component = ['.', '.'] then leave rooted stack
  else component :: stack

/-- The stack after the first component: there a dot is kept, unless an anchor stands before it. -/
def opening (os : Platform) (rooted anchored : Bool) (component : Text) : List Text :=
  if isHere os component ∧ ¬anchored then [['.']] else enter os rooted [] component

/-- The stack after all components of a text, innermost first. -/
def stackOf (os : Platform) (rooted anchored : Bool) (text : Text) : List Text :=
  match Text.pieces '/' text with
  | [] => []
  | component :: more => more.foldl (enter os rooted) (opening os rooted anchored component)

/-! ## Anchors -/

/-- A path in two: what `..` cannot climb over, and the rest. Only Windows has anchors, a host with
its two slashes or a drive with its colon. -/
def splitAnchor (os : Platform) (path : Text) : Text × Text :=
  match os with
  | .posix => ([], path)
  | .windows =>
    if hasTwoSlashes path then
      let length := 2 + ((path.drop 2).takeWhile (· ≠ '/')).length
      (path.take length, path.drop length)
    else if hasDrive path then (path.take 2, path.drop 2)
    else ([], path)

/-- How the components of a path are written out: after which anchor, from a root or not, and
whether any text followed the anchor. -/
structure Frame where
  anchor : Text
  rooted : Bool
  typed : Bool

/-- The frame of a path. -/
def frameOf (os : Platform) (path : Text) : Frame :=
  let (anchor, rest) := splitAnchor os path
  { anchor
    rooted := Text.startsWith rest ['/'] || Text.startsWith anchor ['/', '/']
    typed := !rest.isEmpty }

/-! ## Writing and cutting -/

/-- The text with a slash at its end. -/
def withSlash (text : Text) : Text := if Text.endsIn '/' text then text else text ++ ['/']

/-- Write components after their anchor, each followed by a slash. Where nothing is left, a
relative path is a dot and an empty one the root. -/
def Frame.render (frame : Frame) (components : List Text) : Text :=
  withSlash <|
    if frame.rooted then frame.anchor ++ '/' :: Text.joined ['/'] components
    else if !components.isEmpty then frame.anchor ++ Text.joined ['/'] components
    else if !frame.anchor.isEmpty then frame.anchor
    else if frame.typed then ['.'] else []

/-- Write as many components of a stack as leave one place of the capacity free, dropping the
innermost ones first; where nothing fits, write none. -/
def Frame.fit (frame : Frame) (capacity : Int) : List Text → Text
  | [] => frame.render []
  | top :: below =>
    let text := frame.render (top :: below).reverse
    if (text.length : Int) > capacity - 1 then frame.fit capacity below else text

/-! ## The canonical form -/

/-- The simplified path, always with one slash at its end, cut to a capacity. -/
def canonical (os : Platform) (path : Text) (capacity : Int := limit) : Text :=
  let frame := frameOf os path
  let (anchor, rest) := splitAnchor os path
  frame.fit capacity (stackOf os frame.rooted (!anchor.isEmpty) rest)

/-- Whether two paths have the same canonical form. -/
def equal (os : Platform) (a b : Text) : Bool := os.same (canonical os a) (canonical os b)

end PaneCompletion.Path
