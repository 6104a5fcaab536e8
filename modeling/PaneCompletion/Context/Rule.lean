import PaneCompletion.Context.Basic
import PaneCompletion.Context.Task

/-!
# Rules for vocabularies

The commands whose arguments are words of a vocabulary each have a rule, and so has an argument
that ends in an environment variable. A request for which there is no rule is completed as a path.
-/

namespace PaneCompletion

/-- The way in which vocabularies complete a request. -/
inductive Rule where
  | option
  | expression
  | unlet
  | help
  | history
  | invert
  | owner
  | program
  | highlight
  /-- An environment variable, from an offset on. -/
  | environment (start : Nat)
  | nothing
  | windowRun
  deriving DecidableEq, Repr

/-- The rule for a request. -/
def Rule.of? (request : Request) : Option Rule :=
  match request.command with
  | .setOption => some .option
  | .letVariable | .echo | .execute | .ifBranch | .elseIfBranch => some .expression
  | .unlet => some .unlet
  | .help => some .help
  | .history => some .history
  | .invert => some .invert
  | .chown => some .owner
  | .file => some .program
  | .highlight => some .highlight
  | .windo => some .nothing
  | .winrun => some .windowRun
  | _ => request.variableStart?.map .environment

namespace Context

/-- The task of a help topic: none unless help topics are completed. -/
def helpTask (context : Context) (typed : Text) : Task :=
  if context.settings.vimHelp then .word "help".toList typed else .nothing

/-- The target that a rule gives a request. -/
def targetByRule (context : Context) (request : Request) : Rule → Target
  | .option => ⟨.option request.spacedArgument, request.spacedStart⟩
  | .expression => (Target.ofExpression request.spacedArgument).after request.spacedStart
  | .unlet => (Target.ofVariable request.spacedArgument).after request.spacedStart
  | .help => ⟨context.helpTask request.spacedArgument, request.spacedStart⟩
  | .history => ⟨.word "history".toList request.line, 0⟩
  | .invert => ⟨.word "invert".toList request.line, 0⟩
  | .owner => (Target.ofOwner request.spacedArgument).after request.spacedStart
  | .program =>
    ⟨.word "filetypes".toList request.spacedArgument context.currentFile, request.spacedStart⟩
  | .highlight =>
    if request.atFirst then
      ⟨.word "highlight_groups".toList request.spacedArgument, request.spacedStart⟩
    else (Target.ofHighlight request.spacedArgument).after request.spacedStart
  | .environment start => ⟨.word "environment".toList (request.line.drop start), start⟩
  | .nothing => ⟨.nothing, request.spacedStart⟩
  | .windowRun =>
    ⟨if request.atFirst then .word "winrun".toList request.spacedArgument else .nothing,
      request.spacedStart⟩

end Context

end PaneCompletion
