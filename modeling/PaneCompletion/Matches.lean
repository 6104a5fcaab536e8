import PaneCompletion.Text.Order
import PaneCompletion.Text.LowerCase

/-!
# Matches

The matches of one completion are candidates in groups. A candidate goes into the open group, which
is sorted and freed of repeated texts when it is closed; the last entry is the echo, what the user
typed, so that cycling through the entries always comes back to it. An operation that is not
allowed leaves the matches as they were.

1. candidates and matches;
2. sorting;
3. operations;
4. operations as data;
5. filling matches step by step.
-/

namespace PaneCompletion

/-! ## Candidates and matches -/

/-- What a candidate is. -/
inductive Kind where
  | plain
  | path
  deriving DecidableEq, Repr

/-- A text on offer. -/
structure Candidate where
  text : Text
  kind : Kind
  deriving DecidableEq, Repr

/-- What has been collected: whether paths are sorted without regard to case, the closed groups, the
open one, the echo, and the place of the cycle. -/
structure Matches where
  ignoreCase : Bool := false
  groups : List (List Candidate) := []
  pending : List Candidate := []
  echo : Option Candidate := none
  cursor : Nat := 0
  deriving DecidableEq, Repr

/-- Why an operation is refused. -/
inductive Refusal where
  /-- A candidate after the echo. -/
  | afterEcho (text : Text)
  /-- A second echo. -/
  | echoTwice
  /-- The next of no entries. -/
  | noEntries
  deriving DecidableEq, Repr

/-- The wording of a refusal. -/
def Refusal.message : Refusal → Text
  | .afterEcho text => "Cannot add '".toList ++ text ++ "' after the echo entry".toList
  | .echoTwice => "Echo entry already added".toList
  | .noEntries => "No completion entries".toList

namespace Matches

/-! ## Sorting -/

/-- The key by which a candidate is sorted. -/
def sortKey (ignoreCase : Bool) (candidate : Candidate) : Text :=
  if candidate.kind = .path ∧ ignoreCase then Text.lower candidate.text else candidate.text

/-- The candidates whose text is not among `seen` and has not come before. -/
def withoutRepeats (seen : List Text) : List Candidate → List Candidate
  | [] => []
  | candidate :: rest =>
    if seen.contains candidate.text then withoutRepeats seen rest
    else candidate :: withoutRepeats (candidate.text :: seen) rest

/-- The candidates in order of their keys, each text once. -/
def arranged (ignoreCase : Bool) (candidates : List Candidate) : List Candidate :=
  withoutRepeats [] (sortOn (sortKey ignoreCase) candidates)

/-! ## Operations -/

/-- Nothing collected, under the same case rule. -/
def reset (m : Matches) : Matches := { ignoreCase := m.ignoreCase }

/-- Add a candidate to the open group. -/
def add (m : Matches) (candidate : Candidate) : Except Refusal Matches :=
  match m.echo with
  | some _ => .error (.afterEcho candidate.text)
  | none => .ok { m with pending := m.pending ++ [candidate] }

/-- Close the open group, if there is anything in it. -/
def finishGroup (m : Matches) : Matches :=
  if m.pending.isEmpty then m
  else { m with groups := m.groups ++ [arranged m.ignoreCase m.pending], pending := [] }

/-- Close the open group and set the echo. -/
def setEcho (m : Matches) (candidate : Candidate) : Except Refusal Matches :=
  match m.echo with
  | some _ => .error .echoTwice
  | none => .ok { m.finishGroup with echo := some candidate }

/-- The candidates, without the echo. -/
def candidates (m : Matches) : List Candidate := m.groups.flatten ++ m.pending

/-- Unite all groups, the open one too, into one; the cycle begins anew. -/
def mergeGroups (m : Matches) : Matches :=
  { m with
    groups := if m.candidates.isEmpty then [] else [arranged m.ignoreCase m.candidates]
    pending := []
    cursor := 0 }

/-- What the cycle goes through: the candidates, then the echo. -/
def entries (m : Matches) : List Candidate := m.candidates ++ m.echo.toList

/-- The texts of the entries. -/
def texts (m : Matches) : List Text := m.entries.map (·.text)

/-- The number of entries. -/
def count (m : Matches) : Nat := m.entries.length

/-- The next text of the cycle, and the matches after it. -/
def next (m : Matches) : Except Refusal (Text × Matches) :=
  match m.entries[m.cursor % m.count]? with
  | none => .error .noEntries
  | some entry => .ok (entry.text, { m with cursor := (m.cursor + 1) % m.count })

/-! ## Operations as data -/

/-- An operation on matches. -/
inductive Operation where
  | add (candidate : Candidate)
  | finishGroup
  | setEcho (candidate : Candidate)
  | mergeGroups
  | next
  | reset
  deriving DecidableEq, Repr

/-- Do an operation; the text is the one that the cycle comes to. -/
def perform (m : Matches) : Operation → Except Refusal (Option Text × Matches)
  | .add candidate => (m.add candidate).map (none, ·)
  | .finishGroup => .ok (none, m.finishGroup)
  | .setEcho candidate => (m.setEcho candidate).map (none, ·)
  | .mergeGroups => .ok (none, m.mergeGroups)
  | .next => m.next.map fun (text, m) => (some text, m)
  | .reset => .ok (none, m.reset)

/-- The matches after an operation, allowed or refused. -/
def after (m : Matches) (operation : Operation) : Matches :=
  match m.perform operation with
  | .ok (_, m) => m
  | .error _ => m

/-- The matches after operations in order. -/
def afterAll (m : Matches) (operations : List Operation) : Matches := operations.foldl after m

end Matches

/-! ## Filling matches -/

/-- A run of operations on matches. A refusal ends the run; what was done before it stays. -/
abbrev Filling := EStateM Refusal Matches

namespace Filling

/-- Do one operation. -/
def perform (operation : Matches → Except Refusal Matches) : Filling Unit := fun m =>
  match operation m with
  | .ok m' => .ok () m'
  | .error refusal => .error refusal m

/-- Add candidates in order. -/
def addAll : List Candidate → Filling Unit
  | [] => pure ()
  | candidate :: rest => do
    perform (·.add candidate)
    addAll rest

/-- Close the open group. -/
def finishGroup : Filling Unit := modify Matches.finishGroup

/-- Set the echo. -/
def setEcho (candidate : Candidate) : Filling Unit := perform (·.setEcho candidate)

/-- Add candidates as one group, then the echo. -/
def offer (candidates : List Candidate) (echo : Candidate) : Filling Unit := do
  addAll candidates
  finishGroup
  setEcho echo

end Filling

end PaneCompletion
