import PaneCompletion.Proofs.Context.Returns
import PaneCompletion.Proofs.Context.Start
import PaneCompletion.Prompt.Completions

/-!
# Completing a command line

Completing a command line always comes to an end without a refusal, and what it answers is an offset
in the text after the command name (`complete_command_line`). Three things can keep it from
answering: a value of the settings that does not fit, something that the system refuses to be asked
for the task at hand, and a search list of the environment with a tilde in it that cannot be written
out. The command name is out of reach either way: offers replace characters of the line behind it
only.
-/

namespace PaneCompletion

end PaneCompletion
