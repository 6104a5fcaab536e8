import PaneCompletion.Line.Request

/-!
# Operators in a line

What an argument names is read off the last slash, dollar sign and ampersand in it. There are two
readings of where the argument begins: after the last space of any kind, which is where the signs
are looked for, and at the position of the request, from which on slashes count.
-/

namespace PaneCompletion

/-! ## Expressions -/

/-- What the end of an expression names. -/
inductive ExpressionPart where
  | option
  | function
  | variable
  deriving DecidableEq, Repr

/-- What the end of an expression names, and the offset at which it begins: an option after an
ampersand that is later than any dollar sign, a variable from the last dollar sign on, and a
function where there is neither. -/
def expressionPart (argument : Text) : ExpressionPart × Nat :=
  let dollar := Text.reach '$' argument
  let ampersand := Text.reach '&' argument
  if dollar < ampersand then (.option, ampersand)
  else if dollar = 0 then (.function, 0)
  else (.variable, dollar - 1)

/-! ## Positions in a request -/

namespace Request

/-- The offset of the argument that spaces alone set apart. -/
def spacedStart (request : Request) : Nat := Text.reach ' ' request.line

/-- The argument that spaces alone set apart. -/
def spacedArgument (request : Request) : Text := request.line.drop request.spacedStart

/-- The end of the line from a position on. -/
def lineFrom (request : Request) (position : Int) : Text :=
  request.line.drop (Text.offset position request.line)

/-- The offset of the last slash of the argument being completed. -/
def slash? (request : Request) : Option Nat :=
  Text.lastIndexFrom? '/' (Text.offset request.position request.line) request.line

/-- The offset of the last dollar sign after the last space. -/
def dollar? (request : Request) : Option Nat :=
  Text.lastIndexFrom? '$' request.spacedStart request.line

/-- The offset after the dollar sign of an environment variable in a path, if the argument ends in
one: a dollar sign that no slash follows. -/
def variableStart? (request : Request) : Option Nat :=
  if [.cd, .pushd, .shell, .source].contains request.command then
    match request.dollar?, request.slash? with
    | none, _ => none
    | some dollar, none => some (dollar + 1)
    | some dollar, some slash => if slash < dollar then some (dollar + 1) else none
  else none

end Request

end PaneCompletion
