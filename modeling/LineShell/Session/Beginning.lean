import LineShell.Session.Execution

/-!
New shells and editors, before anything has happened to them.
-/

namespace LineShell

/-- The file name that stands for the home directory in settings. -/
def UserPlaces.ofHome (home : Path) : UserPlaces :=
  let own : Path := { home with names := home.names ++ [".cmdshell"] }
  { home
    settingsFile := { own with names := own.names ++ ["config.yaml"] }
    historyFile := { own with names := own.names ++ ["history"] } }

/-- What is known about the system before any settings are read. -/
structure Surroundings where
  store : Files.Store := {}
  env : Settings.Environment := []
  places : UserPlaces
  logTime : String
  entryTime : String
  outputIsTerminal : Bool := false

/-- The settings found in the usual places. -/
def Surroundings.usualSettings (w : Surroundings) : Except Settings.LoadFault Settings :=
  Settings.load w.store w.env w.places none

/-- The system with the settings of the process. -/
def Surroundings.host (w : Surroundings) (settings : Settings) : Host :=
  { store := w.store, env := w.env, places := w.places, logTime := w.logTime,
    entryTime := w.entryTime, outputIsTerminal := w.outputIsTerminal, settings }

namespace Session

variable {σ : Type}

/-- A shell with given settings, or else with those found in the usual places, from which the log is
set up in either case. The level that they name is not checked. -/
def ofSurroundings (w : Surroundings) (settings : Option Settings) (programs : σ) :
    Except Settings.LoadFault (Session σ) := do
  let usual ← w.usualSettings
  let s : Session σ :=
    { host := w.host usual, registry := { defaults := ⟨defaultCommands⟩ }, settings := usual,
      programs }
  return (s.applySettings (settings.getD usual)).configureLog

/-- An editor without a shell, whose lines go to a program. -/
def editorOnly (w : Surroundings) (completion : Bool) (defaults : Command.Table (Program σ))
    (handler : Option String → Program σ) (programs : σ) :
    Except Settings.LoadFault (Session σ) := do
  let usual ← w.usualSettings
  let s : Session σ :=
    { host := w.host usual, registry := { defaults }, settings := usual, programs,
      completion := if completion then some {} else none, consumer := .program handler }
  return s.configureLog

end Session

end LineShell
