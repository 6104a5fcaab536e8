import PaneCompletion.Prompt.Dialogue

/-!
# The program

Reads lines from standard input and answers each as the dialogue does. A line that ends in a tab
asks for the completions of the text before it. The world is looked at once, when the program
starts: the environment variables that matter, the two panes, the directories of the search list
and of the color schemes, and the help tags. Permission bits are not looked at, so every regular
file in a directory counts as executable.
-/

namespace PaneCompletion.Main

/-- The environment variables that the library asks for. -/
def variableNames : List String :=
  ["HOME", "PATH", "PATHEXT", "TERM", "WT_SESSION", "ANSICON", "TMPDIR", "TEMP", "TEMPDIR", "TMP"]

/-- Read the environment variables that are set. -/
def readVariables : IO (Table Text) := do
  let mut table : Table Text := []
  for name in variableNames do
    if let some value ← IO.getEnv name then
      table := table ++ [(name.toList, value.toList)]
  return table

/-- Put a directory of the machine and its entries on a disk; a directory that cannot be read is
left out. -/
def readDirectory (disk : Disk) (path : Text) : IO Disk := do
  try
    let directory := (← IO.currentDir) / String.ofList path
    let entries ← directory.readDir
    let mut disk := disk.put path (.directory true)
    for entry in entries do
      let node ←
        try
          match (← entry.path.metadata).type with
          | .dir => pure (Node.directory true)
          | .file => pure (Node.file [] true)
          | _ => pure Node.special
        catch _ => pure (Node.link [])
      disk := disk.put (Path.joined path entry.fileName.toList) node
    return disk
  catch _ => return disk

/-- Put a file of the machine and its content on a disk; a file that cannot be read is left out. -/
def readFile (disk : Disk) (path : Text) : IO Disk := do
  try
    let bytes ← IO.FS.readBinFile ((← IO.currentDir) / String.ofList path)
    return disk.put path (.file bytes.toList true)
  catch _ => return disk

/-- Read the settings file of a home directory. It lies in a hidden directory that has the name of
the program. -/
def readSlot (home : Text) : IO FileSlot := do
  try
    let program := (← IO.appPath).fileStem.getD ""
    let file := ('.' :: program.toList) ++ "/config.json".toList
    let bytes ← IO.FS.readBinFile (String.ofList (Path.joined home file))
    return .file bytes.toList
  catch _ => return .absent

/-- Say what stands in the way, and answer the exit status that goes with it. -/
def stop (misfit : Misfit) : IO UInt32 := do
  IO.eprintln (String.ofList misfit.message)
  return 1

/-- Show the remarks that are to be shown. -/
def displayLog (debug : Bool) (log : List Remark) : IO Unit := do
  for remark in log.filter (Remark.isShown debug) do
    IO.eprintln (String.ofList remark.shown)

/-- Show a transcript: remarks, printed lines, and completions, one on a line, each with the number
of characters it replaces. -/
def display (debug : Bool) (transcript : Prompt.Transcript) : IO Unit := do
  displayLog debug transcript.log
  for line in transcript.printed do
    IO.println (String.ofList line)
  for tab in transcript.tabs do
    match tab with
    | .error misfit => IO.eprintln (String.ofList misfit.message)
    | .ok offered =>
      for completion in offered do
        IO.println s!"{completion.replaces}\t{String.ofList completion.text}"

/-- Show the prompt and answer lines until the user quits, the input ends or something stands in the
way; the answer is the exit status. -/
partial def converse (context : Context) (world : World) (terminal : Terminal) (debug : Bool) :
    IO UInt32 := do
  let output ← IO.getStdout
  output.putStr (String.ofList Prompt.text)
  output.flush
  let line ← (← IO.getStdin).getLine
  if line.isEmpty then return 0
  let typed := Text.dropEnd (fun c => c = '\n' || c = '\r') line.toList
  if typed.getLast? = some '\t' then
    let typed := typed.dropLast
    display debug (Prompt.offer context world typed)
    converse (Prompt.contextAfter context world typed) world terminal debug
  else
    let line := Text.trimmed typed
    if Prompt.isQuit line then return 0
    match Prompt.answer context world terminal line with
    | .error misfit => stop misfit
    | .ok answered =>
      display debug answered
      converse context world terminal debug

/-- Hold the dialogue in a world, with settings and arguments that have been read. -/
def start (world : World) (arguments : Arguments) (settings : Settings) : IO UInt32 := do
  let terminal : Terminal := { attached := ← (← IO.getStdout).isTty }
  let context := Prompt.contextOf world arguments settings
  let panes := context.currentDirectory.toList ++ context.otherDirectory.toList
  let searched := (SearchList.orEnvironment world context.searchList).directories
  displayLog arguments.debug (SearchList.remarks world)
  let schemes := settings.colorsDirectory.toList.map (Path.absolute world.workingDirectory)
  let files := settings.helpTags.toList.map (Path.absolute world.workingDirectory)
  let disk ← (panes ++ searched ++ schemes).foldlM readDirectory {}
  let disk ← files.foldlM readFile disk
  converse context { world with disk } terminal arguments.debug

/-- Read the settings of a world and hold the dialogue. -/
def run (world : World) (arguments : Arguments) : IO UInt32 := do
  match world.home with
  | .error error => stop (.noHome error)
  | .ok home =>
    match Store.load? world (← readSlot home) with
    | .error misfit => stop misfit
    | .ok stored =>
      displayLog arguments.debug (stored.notices.map Notice.remark)
      match stored.store.document.settings? with
      | .error misfit => stop misfit
      | .ok settings => start world arguments settings

end PaneCompletion.Main

/-- Complete and resolve command lines from standard input. -/
def main (arguments : List String) : IO UInt32 := do
  match PaneCompletion.Arguments.parse (arguments.map String.toList) with
  | .error stop => return UInt32.ofNat stop.status
  | .ok arguments =>
    PaneCompletion.Main.run
      { environment := ← PaneCompletion.Main.readVariables
        workingDirectory := (← IO.currentDir).toString.toList } arguments
