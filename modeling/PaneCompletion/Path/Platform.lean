import PaneCompletion.Text.LowerCase

/-!
# File name rules of a platform

Windows compares names in lower case and knows drives, hosts, backslashes and long dot runs; on
POSIX a name is compared as it is written and only `/` separates.
-/

namespace PaneCompletion

/-- The file name rules in force. -/
inductive Platform where
  | posix
  | windows
  deriving DecidableEq, Repr

namespace Platform

/-- The form in which the platform compares names. -/
def fold : Platform → Text → Text
  | .posix, t => t
  | .windows, t => Text.lower t

/-- Whether two texts name the same file on the platform. -/
def same (os : Platform) (a b : Text) : Bool := os.fold a == os.fold b

end Platform

end PaneCompletion
