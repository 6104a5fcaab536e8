import PaneCompletion.Text.Basic

/-!
# Remarks for the log

What is worth a remark while requests are answered, and how grave it is. Remarks are values that
stand beside the answers; the program shows warnings and worse, and the others when it is asked to.
-/

namespace PaneCompletion

/-- How grave a remark is. -/
inductive Severity where
  | debug
  | warning
  | error
  deriving DecidableEq, Repr

/-- The name of a severity in the log. -/
def Severity.name : Severity → Text
  | .debug => "DEBUG".toList
  | .warning => "WARNING".toList
  | .error => "ERROR".toList

/-- A remark. -/
structure Remark where
  severity : Severity
  text : Text
  deriving DecidableEq, Repr

namespace Remark

/-- Whether a remark is shown; what is only of use in search of mistakes is shown on request. -/
def isShown (debug : Bool) (remark : Remark) : Bool := debug || remark.severity != .debug

/-- A remark as the log shows it. -/
def shown (remark : Remark) : Text := remark.severity.name ++ ':' :: ' ' :: remark.text

end Remark

end PaneCompletion
