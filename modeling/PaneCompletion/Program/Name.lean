import PaneCompletion.Program.SearchList
import PaneCompletion.Browse
import PaneCompletion.Line.Request

/-!
# Names of external programs

A typed name is completed to the executable files of a search list that begin with it, a group for
each directory. `resolve` replaces a shortened name in a command line when it stands for one
program, and refuses it when it could stand for several.

1. completing names;
2. what stands in the way, and remarks;
3. resolving shortened names.
-/

namespace PaneCompletion.Program

/-! ## Completing names -/

/-- Add the programs of each directory whose name begins with the typed text. Directories that are
missing are passed over. -/
def completeEach (world : World) (browser : Browser) (typed : Text) : List Text → Filling Unit
  | [] => pure ()
  | directory :: rest => do
    if world.isDirectory directory then
      browser.complete world typed .executables (some directory)
    completeEach world browser typed rest

/-- Add the programs of each directory of the list whose name begins with the typed text, then the
text itself as echo. The list is the environment's where none is given. -/
def complete (world : World) (settings : Settings) (given : Option SearchList) (typed : Text) :
    Filling Unit := do
  completeEach world { settings } typed (SearchList.orEnvironment world given).directories
  Filling.setEcho ⟨typed, .path⟩

/-! ## What stands in the way, and remarks -/

/-- What stands in the way of completing a name: that there is no list, or a tilde that cannot be
written out if there is a directory in which that would be asked for. -/
def misfit? (world : World) (settings : Settings) (given : Option SearchList) (typed : Text) :
    Option Misfit :=
  match SearchList.orEnvironment? world given with
  | .error error => some (.noHome error)
  | .ok list =>
    if list.directories.any world.isDirectory then settings.homeMisfit? world typed else none

/-- The remark that a directory of the list is missing. -/
def missingRemark (directory : Text) : Remark :=
  ⟨.debug, "Skipping missing PATH entry: ".toList ++ directory⟩

/-- What is remarked when a name is completed. Nothing comes after what stands in the way. -/
def remarks (world : World) (settings : Settings) (given : Option SearchList) (typed : Text) :
    List Remark :=
  let directories := (SearchList.orEnvironment world given).directories
  if (misfit? world settings given typed).isSome then
    (directories.takeWhile fun directory => !world.isDirectory directory).map missingRemark
  else directories.flatMap fun directory =>
    if world.isDirectory directory then
      ({ settings } : Browser).remarks world typed (some directory)
    else [missingRemark directory]

/-! ## Resolving shortened names -/

/-- Why a shortened name is not resolved. -/
inductive ResolveError where
  /-- Several programs begin with the name, and none is it. -/
  | ambiguous (name : Text) (candidates : List Text)
  /-- Collecting the programs was refused. -/
  | matching (refusal : Refusal)
  /-- A value that is needed does not fit. -/
  | misfit (misfit : Misfit)
  deriving DecidableEq, Repr

/-- The wording of an error. -/
def ResolveError.message : ResolveError → Text
  | .ambiguous _ _ => "Command beginning is ambiguous".toList
  | .matching refusal => refusal.message
  | .misfit reason => reason.message

/-- What is remarked on an error: a name that could stand for several programs. -/
def ResolveError.remarks : ResolveError → List Remark
  | .ambiguous name candidates =>
    [⟨.warning, "Command beginning is ambiguous: ".toList ++ name ++ " (".toList ++
      (toString candidates.length).toList ++ " candidates)".toList⟩]
  | _ => []

/-- Whether a program's name is the typed one, under the case rule. -/
def isTyped (ignoreCase : Bool) (typed name : Text) : Bool :=
  name == typed || (ignoreCase && Text.lower name == Text.lower typed)

/-- The command line with the programs that its name begins put in its place: the one there is, or
the name itself where there is none; the line as it is where the name is one of several. -/
def resolveAmong (ignoreCase : Bool) (line : Text) (matched : Matches) :
    Except ResolveError Text :=
  let (name, arguments) := splitProgram line
  let matched := matched.mergeGroups
  let names := matched.candidates.map (·.text)
  if 1 < names.length then
    if names.any (isTyped ignoreCase name) then .ok line
    else .error (.ambiguous name names)
  else match matched.next with
    | .error refusal => .error (.matching refusal)
    | .ok (full, _) => .ok (if arguments.isEmpty then full else full ++ ' ' :: arguments)

/-- Whether programs are looked for to resolve a command line: not where its name is absolute. -/
def isOpen (world : World) (line : Text) : Bool :=
  !Path.isAbsolute world.platform (splitProgram line).1

/-- The command line with its shortened program name in full. A name that is absolute, or that is
one of several it begins, leaves the line as it is; of a name that begins no program the line is
written anew with one space before its arguments. -/
def resolve (world : World) (settings : Settings) (given : Option SearchList) (line : Text) :
    Except ResolveError Text :=
  if !isOpen world line then .ok line
  else
    let name := (splitProgram line).1
    match misfit? world settings given name with
    | some reason => .error (.misfit reason)
    | none =>
      match complete world settings given name { ignoreCase := settings.ignoreCase } with
      | .error refusal _ => .error (.matching refusal)
      | .ok () matched => resolveAmong settings.ignoreCase line matched

/-- What is remarked when programs are looked for to resolve a command line. -/
def searchRemarks (world : World) (settings : Settings) (given : Option SearchList)
    (line : Text) : List Remark :=
  if isOpen world line then remarks world settings given (splitProgram line).1 else []

end PaneCompletion.Program
