import PaneCompletion.Context.Basic
import PaneCompletion.Context.Task

/-!
# Path arguments

A request for which there is no rule is completed as a path. The argument is read as its word, or
inside an open quote as the text after the quote; the candidate goes in after its last slash. The
command says what is offered, and in which pane a relative path begins.

1. reading the argument;
2. what a command offers;
3. the target of a path argument.
-/

namespace PaneCompletion

/-! ## Reading the argument -/

namespace Request

/-- Whether a word is under way that a quote ends, so that nothing is to be completed there. -/
def stopsAtQuote (request : Request) : Bool :=
  request.inWord && match request.line.getLast? with
    | some c => isQuote c
    | none => true

/-- The offset at which a path candidate goes in: after the last slash of the argument, or at its
beginning, inside its quote. -/
def pathStart (request : Request) : Int :=
  match request.slash?, request.reading with
  | some slash, _ => slash + 1
  | none, .plain => request.position
  | none, .quoted _ => request.position + 1

/-- The offset that is answered where nothing is completed: after the last slash of the argument, or
at its beginning. -/
def stopStart (request : Request) : Int :=
  match request.slash? with
  | some slash => slash + 1
  | none => request.position

/-- The fragment that is completed as a path: the argument as its reader would have it. -/
def fragment (request : Request) : Text :=
  match request.reading with
  | .quoted .single => Token.unquoteSingle (request.lineFrom (request.position + 1))
  | .quoted .double => Token.unquoteDouble (request.lineFrom (request.position + 1))
  | .plain =>
    if request.inWord then request.words.getLast?.getD [] else request.spacedArgument

/-- The number of the argument being completed. -/
def argumentNumber (request : Request) : Nat :=
  if request.inWord then request.wordCount - 1 else request.wordCount

end Request

namespace Context

/-! ## What a command offers -/

/-- The task that a command gives a fragment. -/
def pathTask (context : Context) (request : Request) (fragment : Text) : Task :=
  match request.command with
  | .colorscheme =>
    match request.argumentNumber with
    | 0 => .word "colorschemes".toList fragment
    | 1 => .path fragment .directories
    | _ => .nothing
  | .cd | .pushd | .sync | .mkdir => .path fragment .directories
  | .copy | .move | .alink | .rlink =>
    .path fragment .all ((nonEmpty? context.otherDirectory).or context.currentDirectory)
  | .split | .vsplit => .path fragment .directories context.currentDirectory
  | .find =>
    if request.wordCount = 1 ∧ !Token.endsInSpace request.line then .path fragment .directories
    else .nothing
  | .shell =>
    if !request.atFirst then .path fragment .all
    else if Text.startsWith fragment ['.'] then .path fragment .runnable
    else .program fragment
  | .touch | .rename => .path fragment .bare
  | _ => .path fragment .all

/-! ## The target of a path argument -/

/-- The target of a request for a path. -/
def pathTarget (context : Context) (request : Request) : Target :=
  if request.stopsAtQuote then ⟨.nothing, request.stopStart⟩
  else ⟨context.pathTask request request.fragment, request.pathStart⟩

end Context

end PaneCompletion
