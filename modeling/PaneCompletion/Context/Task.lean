import PaneCompletion.Browse
import PaneCompletion.Line.Operator

/-!
# Tasks

What a request asks for, said without looking at the world: which typed text is to be matched
against what. A target adds the offset at which a chosen candidate goes in. Arguments with parts
have a target for the part under the cursor.

1. tasks and targets;
2. arguments with parts.
-/

namespace PaneCompletion

/-! ## Tasks and targets -/

/-- What is to be matched. -/
inductive Task where
  /-- Nothing. -/
  | nothing
  /-- A typed text, with the words of the vocabulary of a name. An ending follows each word;
  programs are those for a file. -/
  | word (vocabulary typed : Text) (file ending : Text := [])
  /-- A typed text, with the words for setting options. -/
  | option (typed : Text)
  /-- A path fragment, with the entries that a filter lets through; as if typed inside a directory
  when one is given. -/
  | path (fragment : Text) (filter : EntryFilter) (directory : Option Text := none)
  /-- A typed text, with the names of external programs. -/
  | program (typed : Text)
  deriving DecidableEq, Repr

/-- A task, and the offset at which a candidate goes in. -/
structure Target where
  task : Task
  start : Int := 0
  deriving DecidableEq, Repr

namespace Target

/-- A target in a text that other characters come before. -/
def after (offset : Nat) (target : Target) : Target :=
  { target with start := offset + target.start }

/-! ## Arguments with parts -/

/-- A user, or after a colon a group. -/
def ofOwner (typed : Text) : Target :=
  match Text.firstIndex? ':' typed with
  | none => ⟨.word "users".toList typed, 0⟩
  | some colon => ⟨.word "groups".toList (typed.drop (colon + 1)), colon + 1⟩

/-- An attribute to be highlighted, or after an equals sign its value: the last of the styles in a
list with commas, or a color. -/
def ofHighlight (typed : Text) : Target :=
  match Text.firstIndex? '=' typed with
  | none => ⟨.word "highlight_attributes".toList typed, 0⟩
  | some equals =>
    let value := typed.drop (equals + 1)
    if Text.lower (typed.take equals) = "cterm".toList then
      let skipped := Text.reach ',' value
      ⟨.word "styles".toList (value.drop skipped), equals + 1 + skipped⟩
    else ⟨.word "colors".toList value, equals + 1⟩

/-- The function name at the end of a text; an opening parenthesis follows each. -/
def ofFunction (typed : Text) : Target :=
  let name := Text.takeEnd Text.isWord typed
  ⟨.word "functions".toList name [] ['('], (typed.length - name.length : Nat)⟩

/-- A variable: after a dollar sign one of the environment, else a declared one. -/
def ofVariable (typed : Text) : Target :=
  match typed with
  | '$' :: name => ⟨.word "environment".toList name, 1⟩
  | _ => ⟨.word "variables".toList typed, 0⟩

/-- What the end of an expression names. -/
def ofExpression (argument : Text) : Target :=
  match expressionPart argument with
  | (.option, offset) => ⟨.word "options".toList (argument.drop offset), offset⟩
  | (.function, offset) => (ofFunction argument).after offset
  | (.variable, offset) => (ofVariable (argument.drop offset)).after offset

end Target

end PaneCompletion
