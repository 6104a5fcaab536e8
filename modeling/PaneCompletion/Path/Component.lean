import PaneCompletion.Path.Basic

/-!
# First and last parts of a path

`lastComponent` and `parent` take a path apart at its last component; `tidy` and `absolute` write
a path anew, the first without resolving `..`, the second from a working directory.
-/

namespace PaneCompletion.Path

/-! ## Taking apart -/

/-- The last component; slashes that follow it are kept. -/
def lastComponent (path : Text) : Text :=
  if Text.endsIn '/' path then
    let stripped := Text.dropEnd (· = '/') path
    if stripped.isEmpty then path else path.drop (Text.reach '/' stripped)
  else path.drop (Text.reach '/' path)

/-- The path without its last component. A text without a slash is answered as it is. -/
def parent (path : Text) : Text :=
  let stripped := Text.dropEnd (· = '/') path
  if stripped.isEmpty then path.take 1
  else match Text.lastIndex? '/' stripped with
    | none => stripped
    | some 0 => ['/']
    | some slash => stripped.take slash

/-! ## Writing anew -/

/-- The root that slashes at the beginning of a path stand for: exactly two are kept. -/
def rootOf (path : Text) : Text :=
  match (path.takeWhile (· = '/')).length with
  | 0 => []
  | 2 => ['/', '/']
  | _ => ['/']

/-- The path without empty and dot components; double dots stay. A path of which nothing is left is
a dot. -/
def tidy (path : Text) : Text :=
  let components := (Text.pieces '/' path).filter fun c => c ≠ [] ∧ c ≠ ['.']
  let text := rootOf path ++ Text.joined ['/'] components
  if text.isEmpty then ['.'] else text

/-- Put a component of a path on the stack, innermost first: a double dot takes one away where there
is one, and is kept where a relative path has none. -/
def enterResolved (rooted : Bool) (stack : List Text) (component : Text) : List Text :=
  if component = [] ∨ component = ['.'] then stack
  else if component = ['.', '.'] then
    match stack with
    | [] => if rooted then [] else [component]
    | top :: below => if top = ['.', '.'] then component :: stack else below
  else component :: stack

/-- The path with its dots and double dots resolved, and no slash at its end. -/
def resolved (path : Text) : Text :=
  let root := rootOf path
  let stack := (Text.pieces '/' path).foldl (enterResolved (!root.isEmpty)) []
  let text := root ++ Text.joined ['/'] stack.reverse
  if text.isEmpty then ['.'] else text

/-- The path resolved from a working directory. -/
def absolute (workingDirectory path : Text) : Text := resolved (joined workingDirectory path)

end PaneCompletion.Path
