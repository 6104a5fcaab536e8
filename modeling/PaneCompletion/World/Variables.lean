import PaneCompletion.World.Basic
import PaneCompletion.Text.Letter

/-!
# Variable references in a text

`$NAME` and `${NAME}` stand for the value of an environment variable; a name that is not set stays
as it was typed. Values are not looked at again. The reader is a machine over single characters;
an opening brace begins a name only where a closing one follows.
-/

namespace PaneCompletion.World

/-- What has been read of a reference. -/
inductive Reference where
  /-- Nothing. -/
  | none
  /-- The dollar sign. -/
  | dollar
  /-- The beginning of a bare name. -/
  | bare (name : Text)
  /-- The beginning of a name in braces. -/
  | braced (name : Text)

/-- What a reference to a name stands for. -/
def valueOr (world : World) (name written : Text) : Text := (world.value? name).getD written

/-- Read a text and put the values in. -/
def expandFrom (world : World) : Reference → Text → Text
  | .none, [] => []
  | .dollar, [] => ['$']
  | .bare name, [] => world.valueOr name ('$' :: name)
  | .braced name, [] => '$' :: '{' :: name
  | .none, c :: rest =>
    if c = '$' then world.expandFrom .dollar rest else c :: world.expandFrom .none rest
  | .dollar, c :: rest =>
    if c = '{' ∧ rest.contains '}' then world.expandFrom (.braced []) rest
    else if Text.isWord c then world.expandFrom (.bare [c]) rest
    else if c = '$' then '$' :: world.expandFrom .dollar rest
    else '$' :: c :: world.expandFrom .none rest
  | .bare name, c :: rest =>
    if Text.isWord c then world.expandFrom (.bare (name ++ [c])) rest
    else world.valueOr name ('$' :: name) ++
      if c = '$' then world.expandFrom .dollar rest else c :: world.expandFrom .none rest
  | .braced name, c :: rest =>
    if c = '}' then
      world.valueOr name ('$' :: '{' :: name ++ ['}']) ++ world.expandFrom .none rest
    else world.expandFrom (.braced (name ++ [c])) rest

/-- The text with the values of its variable references. -/
def expandVariables (world : World) (text : Text) : Text := world.expandFrom .none text

end PaneCompletion.World
