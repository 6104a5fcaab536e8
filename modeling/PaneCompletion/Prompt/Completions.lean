import PaneCompletion.Context.Completion

/-!
# Completions at the prompt

What the prompt offers for the text before the cursor: command names while one is being typed, and
the candidates of the request after it, each with the number of characters it replaces. Paths are
written so that the command line reads them back, except inside quotes.
-/

namespace PaneCompletion

/-- An offer: the text that goes in, how many characters before the cursor it replaces, and what is
shown for it. -/
structure Completion where
  text : Text
  replaces : Nat
  shown : Text
  deriving DecidableEq, Repr

namespace Prompt

/-- Whether a text is a command name that is still being typed. -/
def inCommandName (body : Text) : Bool :=
  match body with
  | [] => false
  | c :: _ => Text.isLetter c && !body.contains ' '

/-- The command names that go on from a typed beginning. -/
def commandNames (body : Text) : List Completion :=
  ((sortTexts (Command.names.map (·.1))).filter fun name =>
    Text.startsWith name body && name != body).map fun name => ⟨name, body.length, name⟩

/-- The offer of a candidate that replaces some characters. -/
def offerOf (request : Request) (replaces : Nat) (candidate : Candidate) : Completion :=
  let text :=
    if candidate.kind = .path ∧ request.reading = .plain then Escape.shell candidate.text
    else candidate.text
  ⟨text, replaces, candidate.text⟩

/-- The request that the text before the cursor makes, if it is past the command name. -/
def requestOf? (text : Text) : Option Request :=
  if inCommandName (commandBody text) then none
  else
    let (name, request) := parseLine text
    if name.isEmpty then none else some request

/-- The offers for a request, unless something stands in the way. Matches that are still empty
refuse nothing, so no offer is lost to a refusal. -/
def offersFor (context : Context) (world : World) (request : Request) :
    Except Misfit (List Completion) :=
  match (context.complete? world request).run context.noMatches with
  | .error _ _ => .ok []
  | .ok (.error misfit) _ => .error misfit
  | .ok (.ok start) matched =>
    .ok (matched.candidates.map (offerOf request (request.line.length - start).toNat))

/-- The offers for the text before the cursor, unless something stands in the way. -/
def completions (context : Context) (world : World) (text : Text) :
    Except Misfit (List Completion) :=
  let body := commandBody text
  if inCommandName body then .ok (commandNames body)
  else match requestOf? text with
    | none => .ok []
    | some request => offersFor context world request

end Prompt

end PaneCompletion
