import PaneCompletion.Context.Task

/-!
# Completers

The ways in which typed text is completed from vocabularies, each with the target that it has in a
text. Most match the whole text with the words of one vocabulary; some look for the part of the text
that is under the cursor.
-/

namespace PaneCompletion

/-- A way in which typed text is completed from vocabularies. -/
inductive Completer where
  | history
  | invert
  | windowRun
  | user
  | group
  /-- A user, or after a colon a group. -/
  | owner
  | colorScheme
  | environment
  | highlightGroup
  /-- An attribute to be highlighted, or its value. -/
  | highlight
  /-- The programs for a file. -/
  | program (file : Text)
  /-- The words for setting options. -/
  | option
  | optionName
  | functionName
  /-- A declared variable, or after a dollar sign one of the environment. -/
  | variableName
  deriving DecidableEq, Repr

/-- What a completer matches in a typed text, and where. -/
def Completer.target (typed : Text) : Completer → Target
  | .history => ⟨.word "history".toList typed, 0⟩
  | .invert => ⟨.word "invert".toList typed, 0⟩
  | .windowRun => ⟨.word "winrun".toList typed, 0⟩
  | .user => ⟨.word "users".toList typed, 0⟩
  | .group => ⟨.word "groups".toList typed, 0⟩
  | .owner => Target.ofOwner typed
  | .colorScheme => ⟨.word "colorschemes".toList typed, 0⟩
  | .environment => ⟨.word "environment".toList typed, 0⟩
  | .highlightGroup => ⟨.word "highlight_groups".toList typed, 0⟩
  | .highlight => Target.ofHighlight typed
  | .program file => ⟨.word "filetypes".toList typed file, 0⟩
  | .option => ⟨.option typed, 0⟩
  | .optionName => ⟨.word "options".toList typed, 0⟩
  | .functionName => Target.ofFunction typed
  | .variableName => Target.ofVariable typed

end PaneCompletion
