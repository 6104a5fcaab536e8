import PaneCompletion.Text.Basic

/-!
# Commands of the file manager

The commands whose arguments complete in their own way. A name may be shortened as far as it
begins only one of them.
-/

namespace PaneCompletion

/-- The commands that are told apart; every other one is `other`. -/
inductive Command where
  | setOption
  | letVariable
  | echo
  | execute
  | ifBranch
  | elseIfBranch
  | unlet
  | help
  | history
  | invert
  | chown
  | file
  | highlight
  | cd
  | pushd
  | shell
  | source
  | windo
  | winrun
  | sync
  | mkdir
  | copy
  | move
  | alink
  | rlink
  | split
  | vsplit
  | find
  | touch
  | rename
  | colorscheme
  | other
  deriving DecidableEq, Repr

namespace Command

/-- The full names. -/
def names : List (Text × Command) :=
  [("!".toList, .shell), ("alink".toList, .alink), ("cd".toList, .cd), ("chown".toList, .chown),
    ("colorscheme".toList, .colorscheme), ("copy".toList, .copy), ("echo".toList, .echo),
    ("elseif".toList, .elseIfBranch), ("execute".toList, .execute), ("file".toList, .file),
    ("find".toList, .find), ("help".toList, .help), ("highlight".toList, .highlight),
    ("history".toList, .history), ("if".toList, .ifBranch), ("invert".toList, .invert),
    ("let".toList, .letVariable), ("mkdir".toList, .mkdir), ("move".toList, .move),
    ("pushd".toList, .pushd), ("rename".toList, .rename), ("rlink".toList, .rlink),
    ("set".toList, .setOption), ("source".toList, .source), ("split".toList, .split),
    ("sync".toList, .sync), ("touch".toList, .touch), ("unlet".toList, .unlet),
    ("vsplit".toList, .vsplit), ("windo".toList, .windo), ("winrun".toList, .winrun)]

/-- Whether a command's argument is an expression. -/
def takesExpression (command : Command) : Bool :=
  [.letVariable, .echo, .execute, .ifBranch, .elseIfBranch].contains command

/-- The command of a name: a full name, or the beginning of exactly one. -/
def ofName (name : Text) : Command :=
  match names.find? (·.1 = name) with
  | some (_, command) => command
  | none =>
    if name.isEmpty then .other
    else match names.filter fun entry => Text.startsWith entry.1 name with
      | [(_, command)] => command
      | _ => .other

end Command

end PaneCompletion
