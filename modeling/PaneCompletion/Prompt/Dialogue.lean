import PaneCompletion.Path.Component
import PaneCompletion.Prompt.Arguments
import PaneCompletion.Prompt.Color
import PaneCompletion.Prompt.Completions
import PaneCompletion.Settings.Store

/-!
# The dialogue

The program shows a prompt, answers the line that is typed at it, and shows the prompt again, until
the user quits or there is no more input. A line with an exclamation mark is answered by the
external command it stands for, any other one by itself. A value of the settings that does not fit
ends the dialogue where a line needs it; completions that need it are not offered, and why is.

1. what happens at a prompt;
2. answering a line;
3. the dialogue;
4. starting it.
-/

namespace PaneCompletion

namespace Prompt

/-- What happens at a prompt. -/
inductive Event where
  /-- A line is typed. -/
  | line (text : Text)
  /-- The user interrupts. -/
  | interrupt
  /-- Completions are asked for of a text that is being typed. -/
  | tab (text : Text)
  deriving DecidableEq, Repr

/-- What is seen of a dialogue: the printed lines, how often the prompt was shown, the completions
that were offered or what stood in their way, and the remarks. -/
structure Transcript where
  printed : List Text := []
  prompts : Nat := 0
  tabs : List (Except Misfit (List Completion)) := []
  log : List Remark := []

/-- One transcript after another. -/
def Transcript.andThen (a b : Transcript) : Transcript :=
  ⟨a.printed ++ b.printed, a.prompts + b.prompts, a.tabs ++ b.tabs, a.log ++ b.log⟩

/-- The transcript of a prompt being shown. -/
def Transcript.shown : Transcript := { prompts := 1 }

/-! ## Answering -/

/-- The text of the prompt. -/
def text : Text := [':']

/-- Whether a line ends the dialogue. -/
def isQuit (line : Text) : Bool := line == ['q'] || line == "quit".toList

/-- What a line, trimmed, is answered with, unless something stands in the way. -/
def answer (context : Context) (world : World) (terminal : Terminal) (line : Text) :
    Except Misfit Transcript :=
  match line with
  | [] => .ok {}
  | '!' :: command =>
    let searched := Program.searchRemarks world context.settings context.searchList command
    match Program.resolve world context.settings context.searchList command with
    | .ok resolved =>
      let line := terminal.colored world ('!' :: resolved) "green".toList
      .ok { printed := [line], log := searched }
    | .error (.misfit misfit) => .error misfit
    | .error error =>
      let names := match error with
        | .ambiguous _ names => names
        | _ => []
      let line := error.message ++ [':', ' '] ++ Text.joined [',', ' '] names
      let line := terminal.colored world line "red".toList
      .ok { printed := [line], log := searched ++ error.remarks }
  | line => .ok { printed := [line] }

/-! ## The dialogue -/

/-- What is seen of completions being asked for. -/
def offer (context : Context) (world : World) (typed : Text) : Transcript :=
  let log := match requestOf? typed with
    | some request => context.remarks world (context.target request).task
    | none => []
  { tabs := [completions context world typed], log }

/-- The context once completions have been asked for. -/
def contextAfter (context : Context) (world : World) (typed : Text) : Context :=
  match requestOf? typed with
  | some request => context.performed world (context.target request).task
  | none => context

/-- What is seen from a shown prompt on, unless something stands in the way of an answer. -/
def converse (context : Context) (world : World) (terminal : Terminal) :
    List Event → Except Misfit Transcript
  | [] => .ok {}
  | .tab typed :: rest => do
    let later ← converse (contextAfter context world typed) world terminal rest
    return (offer context world typed).andThen later
  | .interrupt :: rest => do
    let later ← converse context world terminal rest
    return Transcript.shown.andThen later
  | .line typed :: rest => do
    let line := Text.trimmed typed
    if isQuit line then return {}
    let answered ← answer context world terminal line
    let later ← converse context world terminal rest
    return answered.andThen (Transcript.shown.andThen later)

/-! ## Starting -/

/-- The context that arguments and settings give. -/
def contextOf (world : World) (arguments : Arguments) (settings : Settings) : Context :=
  let other := (nonEmpty? arguments.right).getD arguments.left
  { lexicon := Lexicon.ofSettings settings
    settings
    currentDirectory := some (Path.absolute world.workingDirectory arguments.left)
    otherDirectory := some (Path.absolute world.workingDirectory other)
    currentFile := arguments.file.getD []
    searchList := some (SearchList.ofEnvironment world) }

/-- Why a run ends before its dialogue does. -/
inductive Stop where
  | arguments (stop : ArgumentStop)
  | misfit (misfit : Misfit)
  deriving DecidableEq, Repr

/-- What is seen of a run with arguments that have been read: settings are read, then the dialogue
begins. -/
def converseWith (world : World) (terminal : Terminal) (arguments : Arguments) (slot : FileSlot)
    (events : List Event) : Except Misfit Transcript := do
  let stored ← Store.load? world slot
  let settings ← stored.store.document.settings?
  let dialogue ← converse (contextOf world arguments settings) world terminal events
  let log := stored.notices.map Notice.remark ++ SearchList.remarks world
  return { log : Transcript }.andThen (Transcript.shown.andThen dialogue)

/-- What is seen of a run of the program with arguments and a settings file, remarks that are not
shown left out; or why it ends before its dialogue does. -/
def run (world : World) (terminal : Terminal) (slot : FileSlot) (arguments : List Text)
    (events : List Event) : Except Stop Transcript :=
  match Arguments.parse arguments, world.home with
  | .error stop, _ => .error (.arguments stop)
  | .ok _, .error error => .error (.misfit (.noHome error))
  | .ok arguments, .ok _ =>
    match converseWith world terminal arguments slot events with
    | .error misfit => .error (.misfit misfit)
    | .ok dialogue =>
      .ok { dialogue with log := dialogue.log.filter (Remark.isShown arguments.debug) }

end Prompt

end PaneCompletion
