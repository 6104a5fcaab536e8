import PaneCompletion.Context.Path
import PaneCompletion.Context.Rule
import PaneCompletion.Program.Name

/-!
# Completing a request

There is no grammar of arguments: the command and the signs in its argument choose a rule for
vocabularies, and everything else is completed as a path. Either way a request has a target, and
its task is performed. Beside that stand what may be in the way of a task, what is remarked, and
what it leaves behind: help topics are read from their file once.

1. the target of a request;
2. performing a task;
3. completing a request;
4. what stands in the way;
5. what a task leaves behind.
-/

namespace PaneCompletion.Context

/-! ## The target of a request -/

/-- What a request is completed with, and where. -/
def target (context : Context) (request : Request) : Target :=
  match Rule.of? request with
  | some rule => context.targetByRule request rule
  | none => context.pathTarget request

/-! ## Performing a task -/

/-- The words of a vocabulary that match a typed text; none where no vocabulary has the name. -/
def matchingWords (context : Context) (world : World) (vocabulary typed : Text)
    (currentFile : Text := []) : List Text :=
  match context.lexicon.get? vocabulary with
  | none => []
  | some v => v.matchingWords world context.settings.ignoreCase currentFile typed

/-- The words for setting options: `all`, every option, and the two forms that switch one off or
over. -/
def optionWords (context : Context) (world : World) : List Text :=
  match context.lexicon.get? "options".toList with
  | none => ["all".toList]
  | some v =>
    let switches := v.source.switches
    "all".toList :: v.words world [] ++ switches.map ("no".toList ++ ·) ++
      switches.map ("inv".toList ++ ·)

/-- Add words as one group, and the typed text as echo. -/
def offerWords (words : List Text) (typed : Text) : Filling Unit :=
  Filling.offer (words.map (⟨·, .plain⟩)) ⟨typed, .plain⟩

/-- What path fragments are completed with: relative ones begin in the current pane. -/
def browser (context : Context) : Browser :=
  { settings := context.settings, base := context.currentDirectory }

/-- Fill matches with what a task asks for. -/
def perform (context : Context) (world : World) : Task → Filling Unit
  | .nothing => pure ()
  | .word vocabulary typed file ending =>
    offerWords ((context.matchingWords world vocabulary typed file).map (· ++ ending)) typed
  | .option typed =>
    offerWords ((context.optionWords world).filter (Text.startsWith · typed)) typed
  | .path fragment filter none => context.browser.complete world fragment filter
  | .path fragment filter (some directory) =>
    context.browser.completeIn world directory fragment filter
  | .program typed => Program.complete world context.settings context.searchList typed

/-! ## Completing a request -/

/-- Fill matches with the candidates of a request; the answer is the offset in its line at which a
chosen candidate goes in. -/
def complete (context : Context) (world : World) (request : Request) : Filling Int := do
  let target := context.target request
  context.perform world target.task
  return target.start

/-- No matches yet, under the case rule of the settings. -/
def noMatches (context : Context) : Matches := { ignoreCase := context.settings.ignoreCase }

/-! ## What stands in the way -/

/-- What stands in the way of a task: a value that it needs and that does not fit. -/
def misfit? (context : Context) (world : World) : Task → Option Misfit
  | .nothing => none
  | .word vocabulary _ file _ =>
    context.lexicon.misfit? world context.settings.misfits vocabulary file
  | .option _ =>
    let source := (context.lexicon.get? "options".toList).map (·.source)
    (source.bind (·.switchMisfit? context.settings.misfits)).or
      (source.bind (·.misfit? world context.settings.misfits []))
  | .path fragment _ _ => context.settings.homeMisfit? world fragment
  | .program typed => Program.misfit? world context.settings context.searchList typed

/-- The candidates that have been added when something stands in the way of a task: of the words for
setting options those before the first that is no text. -/
def candidatesBefore (context : Context) : Task → List Candidate
  | .option typed =>
    let misfits := context.settings.misfits
    if misfits.switches.isSome then []
    else (("all".toList :: misfits.optionsBefore).filter (Text.startsWith · typed)).map
      (⟨·, .plain⟩)
  | _ => []

/-- Perform a task, unless something stands in its way. -/
def perform? (context : Context) (world : World) (task : Task) : ExceptT Misfit Filling Unit :=
  match context.misfit? world task with
  | some misfit => do
    Filling.addAll (context.candidatesBefore task)
    throw misfit
  | none => context.perform world task

/-- Complete a request, unless something stands in the way. -/
def complete? (context : Context) (world : World) (request : Request) :
    ExceptT Misfit Filling Int := do
  let target := context.target request
  context.perform? world target.task
  return target.start

/-! ## What a task leaves behind -/

/-- What is remarked when a task is performed. -/
def remarks (context : Context) (world : World) : Task → List Remark
  | .nothing => []
  | .word vocabulary _ file _ => context.lexicon.remarks world vocabulary file
  | .option _ => context.lexicon.remarks world "options".toList
  | .path fragment _ none => context.browser.remarks world fragment
  | .path fragment _ (some directory) =>
    context.browser.remarks world fragment (Browser.baseInside world directory fragment)
  | .program typed => Program.remarks world context.settings context.searchList typed

/-- The context once a task has been performed. -/
def performed (context : Context) (world : World) : Task → Context
  | .word vocabulary _ _ _ =>
    { context with lexicon := context.lexicon.consulted world vocabulary }
  | _ => context

end PaneCompletion.Context
