import LineShell.Demo
import LineShell.Session.Beginning
import Std.Time.Format
import Std.Time.Zoned

/-!
The demonstration menu on the standard streams. What the shell does is decided by the actions on its
session; this module brings it bytes, variables and files, and carries out what it has written.
-/

namespace LineShell.Terminal

/-- The session of the demonstration; its programs keep the name of the prompt's colour. -/
abbrev Demonstration := Session String

def standardInput : Nat := 0

def logTimeForm : String := "uuuu-MM-dd'T'HH:mm:ss.SSSSSS'Z'"

def entryTimeForm : String := "uuuu-MM-dd HH:mm:ss.SSSSSS"

/-- Sets the clock of a session. -/
def withClock (s : Demonstration) : IO Demonstration := do
  let moment ← Std.Time.Timestamp.now
  let utc := Std.Time.DateTime.ofTimestamp moment Std.Time.TimeZone.ZoneRules.UTC
  return { s with host := { s.host with
    logTime := utc.format logTimeForm, entryTime := utc.format entryTimeForm } }

def environment : IO Settings.Environment := do
  let bytes ← try IO.FS.readBinFile "/proc/self/environ" catch _ => pure ByteArray.empty
  let text := String.ofList (Text.Utf8.decode bytes.toList)
  return (text.splitOn "\x00").filterMap fun entry =>
    match entry.splitOn "=" with
    | name :: value :: more => some (name, "=".intercalate (value :: more))
    | _ => none

/-- Brings a file into a store, if there is one. -/
def fetch (store : Files.Store) (path : Path) : IO Files.Store := do
  try
    let bytes ← IO.FS.readBinFile path.toString
    return store.put path bytes.toList
  catch _ => return store

/-- The files that settings may come from. -/
def settingsFiles (store : Files.Store) (places : UserPlaces) (named : Option String) : List Path :=
  let own := [⟨1, store.workDir ++ [Settings.localName]⟩, places.settingsFile]
  match named.map places.path with
  | some (.ok path) => path :: own
  | _ => own

/-- The surroundings of the process, with the files that a command line makes the shell read. -/
def surroundings (args : List String) : IO Surroundings := do
  let env ← environment
  let places := UserPlaces.ofHome (Path.ofString ((env.lookup "HOME").getD "/"))
  let here := Path.ofString (← IO.currentDir).toString
  let named := ((Options.ofArgs args).toOption.map (·.config)).filter (· ≠ "")
  let bare : Files.Store := { workDir := here.names }
  let store ← (settingsFiles bare places named).foldlM fetch bare
  let store ←
    match Settings.load store env places named with
    | .ok settings => match settings.historyPath places with
      | .ok (some path) => fetch store path
      | _ => pure store
    | .error _ => pure store
  return { store, env, places, logTime := "", entryTime := "",
           outputIsTerminal := ← (← IO.getStdout).isTty }

/-- Writes the files in which two stores differ. -/
def keep (before after : Files.Store) : IO Unit :=
  after.nodes.forM fun (place, node) => do
    match node with
    | .directory => return
    | .file bytes =>
      if before.node? place ≠ some node then
        try
          IO.FS.createDirAll (Path.mk 1 place.dropLast).toString
          IO.FS.writeBinFile (Path.mk 1 place).toString ⟨bytes.toArray⟩
        catch e => IO.eprintln e

/-- Performs an action, and carries out what it has written. -/
def perform {α : Type} (act : Act String α) (s : Demonstration) :
    IO (Except Interrupt α × Demonstration) := do
  let s ← withClock s
  let (answer, next) := act.run.run s
  let output ← IO.getStdout
  IO.eprint (String.join next.host.errors.reverse)
  output.putStr (Edit.textOf next.editor.writes ++ String.join next.host.printed.reverse)
  output.flush
  keep s.host.store next.host.store
  return (answer, { next with
    editor := { next.editor with writes := [] }
    host := { next.host with errors := [], printed := [] } })

/-- Serves the bytes of a stream, each as soon as it can be had, until the loop of the session is to
stop. -/
partial def serve (input : IO.FS.Stream) (s : Demonstration) :
    IO (Except Interrupt Unit × Demonstration) := do
  if s.stopping then return (.ok (), s)
  let bytes ← input.read 1
  let (answer, s) ← perform (Session.serve bytes.toList) s
  match answer with
  | .error cause => return (.error cause, s)
  | .ok _ => if bytes.isEmpty then return (.ok (), s) else serve input s

/-- The exit code of a run that has ended. -/
def exitCode (answer : Except Interrupt Unit) : IO UInt32 :=
  match answer with
  | .ok _ => return 0
  | .error (.exit code) => return UInt32.ofNat code
  | .error (.failure fault) => do
    IO.eprintln fault.message
    return 1

/-- Runs a session on the standard input with a command line. -/
def runSession (argv : List String) (s : Demonstration) : IO UInt32 := do
  let start := do
    Session.checkLevel s.host.settings
    Demo.startOn argv standardInput id fun name _ => name
    Session.beginService
  match ← perform start s with
  | (.error cause, _) => exitCode (.error cause)
  | (.ok _, s) =>
    let (served, s) ← serve (← IO.getStdin) s
    let (closed, _) ← perform Session.endService s
    exitCode (closed >>= fun _ => served)

end LineShell.Terminal

def main (args : List String) : IO UInt32 := do
  let argv := "lineshell" :: args
  match LineShell.Session.ofSurroundings (← LineShell.Terminal.surroundings argv) none "" with
  | .ok s => LineShell.Terminal.runSession argv s
  | .error fault =>
    IO.eprintln fault.message
    return 1
