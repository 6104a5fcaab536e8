import PaneCompletion.Matches
import PaneCompletion.Settings.Basic
import PaneCompletion.World.Variables

/-!
# Completing paths

A typed fragment is completed against the entries of the directory that its text up to the last
slash names. The tilde and variable references in it are expanded first; a relative directory is
found from a base directory, never by changing the working directory. What is offered is the entry
name alone, with a slash after a directory.

1. entries and their selection;
2. where a fragment looks;
3. completing a fragment;
4. remarks.
-/

namespace PaneCompletion

/-! ## Entries -/

/-- Which entries are offered. -/
inductive EntryFilter where
  /-- Directories. -/
  | directories
  /-- Executable files; the typed text is not added as echo. -/
  | executables
  /-- Directories and executable files. -/
  | runnable
  /-- Everything. -/
  | all
  /-- Everything, directories without a slash after them. -/
  | bare
  deriving DecidableEq, Repr

/-- An entry of a directory: its name, and whether it is a directory, links followed. -/
structure Entry where
  name : Text
  isDirectory : Bool
  deriving DecidableEq, Repr

namespace Entry

/-- Whether what stands in a directory is a directory once its link is followed; a link that cannot
be followed is none. -/
def leadsIn (world : World) (path : Text) (node : Node) : Bool :=
  match world.target path node with
  | .ok (some node) => node.isDirectory
  | _ => false

/-- The entries of a directory in the order of the disk, the two dot names first. -/
def inDirectory (world : World) (directory : Text) : Except LookupError (List Entry) := do
  let children ← world.list directory
  let named := children.map fun (name, node) =>
    { name, isDirectory := leadsIn world (Path.joined directory name) node : Entry }
  return ⟨['.'], true⟩ :: ⟨['.', '.'], true⟩ :: named

/-- Whether a name begins with a fragment, under the case rule. -/
def nameMatches (ignoreCase : Bool) (name fragment : Text) : Bool :=
  if ignoreCase then Text.startsWith (Text.lower name) (Text.lower fragment)
  else Text.startsWith name fragment

/-- Whether an entry of a directory is an executable file. -/
def isProgram (world : World) (directory : Text) (entry : Entry) : Bool :=
  !entry.isDirectory && world.isExecutable (Path.joined directory entry.name)

/-- Whether a filter lets an entry of a directory through. -/
def passes (world : World) (directory : Text) (entry : Entry) : EntryFilter → Bool
  | .directories => entry.isDirectory
  | .executables => entry.isProgram world directory
  | .runnable => entry.isDirectory || entry.isProgram world directory
  | .all | .bare => true

/-- Whether an entry is offered for a fragment: names that begin with a dot only when something is
typed. -/
def isOffered (world : World) (ignoreCase : Bool) (directory fragment : Text)
    (filter : EntryFilter) (entry : Entry) : Bool :=
  !(fragment.isEmpty && Text.startsWith entry.name ['.']) &&
    nameMatches ignoreCase entry.name fragment && entry.passes world directory filter

/-- The candidate of an entry. -/
def candidate (filter : EntryFilter) (entry : Entry) : Candidate :=
  if entry.isDirectory ∧ filter ≠ .bare then ⟨entry.name ++ ['/'], .path⟩ else ⟨entry.name, .path⟩

end Entry

/-! ## Where a fragment looks -/

/-- What fragments are completed with: settings, and the directory that relative fragments start
from; the working directory when there is none. -/
structure Browser where
  settings : Settings := {}
  base : Option Text := none

namespace Browser

/-- The directory that a directory text means, seen from the first base directory that is given. -/
def resolve (browser : Browser) (world : World) (base : Option Text) (directory : Text) : Text :=
  if Path.isAbsolute world.platform directory then directory
  else
    let base := ((nonEmpty? base).or (nonEmpty? browser.base)).getD world.workingDirectory
    Path.joined base directory

/-- A fragment in two: the text of the directory to list, and what the names have to begin with.
Variable references are replaced only where that gives a slash. -/
def split (browser : Browser) (world : World) (fragment : Text) : Text × Text :=
  let typed := world.expandTilde (browser.settings.homeIn world) fragment
  let expanded := world.expandVariables typed
  match Text.lastIndex? '/' expanded with
  | some slash => (expanded.take (slash + 1), expanded.drop (slash + 1))
  | none => (['.'], typed)

/-- Whether a fragment is a tilde and a name, with no slash after it. -/
def isTildeWord (fragment : Text) : Bool :=
  Text.startsWith fragment ['~'] && !fragment.contains '/'

/-- What completes a tilde and a name: the directory it stands for, or the text when it stands for
none. -/
def homeCandidate (browser : Browser) (world : World) (fragment : Text) : Candidate :=
  let expanded := world.expandTilde (browser.settings.homeIn world) fragment
  ⟨if expanded ≠ fragment then Path.dropSlash expanded ++ ['/'] else expanded, .path⟩

/-! ## Completing a fragment -/

/-- The candidates for a name in a directory with some entries. -/
def candidatesAmong (browser : Browser) (world : World) (directory name : Text)
    (filter : EntryFilter) (entries : List Entry) : List Candidate :=
  (entries.filter
    (Entry.isOffered world browser.settings.ignoreCase directory name filter)).map
      (Entry.candidate filter)

/-- Add the matches of a fragment, close their group, and echo what the names were matched with.
A directory that cannot be read gives that text as the only candidate, in an open group. -/
def complete (browser : Browser) (world : World) (fragment : Text) (filter : EntryFilter)
    (base : Option Text := none) : Filling Unit :=
  if isTildeWord fragment then Filling.addAll [browser.homeCandidate world fragment]
  else do
    let (directoryText, name) := browser.split world fragment
    let directory := browser.resolve world base directoryText
    match Entry.inDirectory world directory with
    | .error _ => Filling.addAll [⟨name, .path⟩]
    | .ok entries =>
      Filling.addAll (browser.candidatesAmong world directory name filter entries)
      Filling.finishGroup
      if filter ≠ .executables then Filling.setEcho ⟨name, .path⟩

/-- The base directory of a fragment that is typed inside a directory: that directory, unless the
fragment says itself where it begins. -/
def baseInside (world : World) (directory fragment : Text) : Option Text :=
  if Path.isRoot world.platform fragment || Path.isAbsolute world.platform fragment ||
      Text.startsWith fragment ['~'] then none
  else some directory

/-- Add the matches of a fragment as if it were typed inside a directory. -/
def completeIn (browser : Browser) (world : World) (directory fragment : Text)
    (filter : EntryFilter) : Filling Unit :=
  browser.complete world fragment filter (baseInside world directory fragment)

/-! ## Remarks -/

/-- What is remarked when a directory is read: that it is none, or why it cannot be. -/
def readingRemarks (world : World) (directory : Text) : List Remark :=
  match world.list directory with
  | .ok _ => []
  | .error error =>
    let wording :=
      if world.isDirectory directory then error.message directory
      else "Not a directory: ".toList ++ directory
    [⟨.debug, "Cannot complete in ".toList ++ directory ++ ':' :: ' ' :: wording⟩]

/-- What is remarked when a fragment is completed; nothing where its tilde cannot be written out. -/
def remarks (browser : Browser) (world : World) (fragment : Text) (base : Option Text := none) :
    List Remark :=
  if (browser.settings.homeMisfit? world fragment).isSome then []
  else if isTildeWord fragment then world.tildeRemarks fragment
  else
    world.tildeRemarks fragment ++
      readingRemarks world (browser.resolve world base (browser.split world fragment).1)

end Browser

end PaneCompletion
