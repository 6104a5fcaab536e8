import PaneCompletion.Log
import PaneCompletion.World.Basic
import PaneCompletion.Path.Component

/-!
# Home directories and the tilde

A leading `~` stands for the home directory, `~name` for an account's. `expandTilde` writes the
directory out where it is known, `abbreviateHome` puts the tilde back for display.
-/

namespace PaneCompletion.World

/-- What is stated as the home directory: by the environment, or else by the account. -/
def statedHome? (world : World) : Option Text :=
  (world.value? "HOME".toList).or (world.user.map (·.home))

/-- The home directory that is stated: without slashes at its end, empty and dot components left
out; a root stays a root. -/
def homeDirectory (world : World) : Text :=
  let stated := Text.dropEnd (· = '/') (world.statedHome?.getD [])
  let home := Path.tidy (if stated.isEmpty then ['/'] else stated)
  if Path.isRoot world.platform home then home else Text.dropEnd (· = '/') home

/-- Why there is no home directory. -/
inductive HomeError where
  /-- The environment states none, and the program runs under no account. -/
  | unknown
  /-- What is stated begins with a tilde, which stands for a home directory itself. -/
  | tilde
  /-- The name of the account whose home directory is asked for has a NUL in it. -/
  | nul
  deriving DecidableEq, Repr

/-- The wording of it. -/
def HomeError.message : HomeError → Text
  | .unknown | .tilde => "Could not determine home directory.".toList
  | .nul => LookupError.nulWording

/-- The home directory, unless there is none. -/
def home (world : World) : Except HomeError Text :=
  match world.statedHome? with
  | none => .error .unknown
  | some stated =>
    if Text.startsWith stated ['~'] then .error .tilde else .ok world.homeDirectory

/-- The account of a name. -/
def account? (world : World) (name : Text) : Option Account :=
  world.accounts.find? (·.name = name)

/-- The path with a leading `~` or `~name` written out; a name that no account has stays. -/
def expandTilde (world : World) (home path : Text) : Text :=
  match path with
  | ['~'] => home
  | '~' :: '/' :: rest => Path.dropSlash home ++ '/' :: rest
  | '~' :: named =>
    match world.account? (named.takeWhile (· ≠ '/')) with
    | none => path
    | some account =>
      Path.dropSlash account.home ++ '/' :: (named.dropWhile (· ≠ '/')).drop 1
  | _ => path

/-- Why a leading `~name` cannot be written out: the system does not look for an account whose name
has a NUL in it. On Windows no account is looked for. -/
def accountError? (world : World) (path : Text) : Option HomeError :=
  match world.platform, path with
  | .posix, '~' :: named =>
    if '\x00' ∈ named.takeWhile (· ≠ '/') then some .nul else none
  | _, _ => none

/-- Why a leading tilde cannot be written out. Whatever comes after it, the home directory is asked
for first. -/
def tildeError? (world : World) (path : Text) : Option HomeError :=
  if !Text.startsWith path ['~'] then none
  else match world.home with
    | .error error => some error
    | .ok _ => world.accountError? path

/-- What is remarked when a leading tilde is written out: a name that no account has. -/
def tildeRemarks (world : World) (path : Text) : List Remark :=
  match path with
  | '~' :: named =>
    let name := named.takeWhile (· ≠ '/')
    if name.isEmpty || (world.account? name).isSome then []
    else [⟨.debug, "No such user for tilde expansion: ".toList ++ name⟩]
  | _ => []

/-- The directory for files that are not to last: the first of the customary variables that names
one. -/
def temporaryDirectory (world : World) : Text :=
  let stated := ["TMPDIR", "TEMP", "TEMPDIR", "TMP"].findSome? fun name =>
    nonEmpty? (world.value? name.toList)
  stated.getD "/tmp/".toList

end PaneCompletion.World

namespace PaneCompletion.Path

/-- The directory with a tilde in place of the home directory it lies in, without a slash at its
end. -/
def abbreviateHome (os : Platform) (home directory : Text) : Except Error Text := do
  let home := dropSlash home
  let inside ← if home.isEmpty then pure false else startsWith os directory home
  let text := if inside then '~' :: directory.drop home.length else directory
  return if isRoot os text then text else dropSlash text

end PaneCompletion.Path
