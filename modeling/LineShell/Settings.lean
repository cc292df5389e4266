import LineShell.Files.Path
import LineShell.Text.Blank

/-!
The settings of a shell, in two sections: the line editor with its history, and the log.
-/

namespace LineShell

structure ShellSettings where
  prompt : String := "[cmdshell]# "
  /-- The path of the history file; a blank one means that there is none. -/
  historyFile : String
  historyLength : Int := 1000
  eraseEmptyLine : Bool := true
  colours : Bool := true
  deriving DecidableEq, Repr, Inhabited

structure LogSettings where
  level : String := "WARNING"
  format : String := "console"
  deriving DecidableEq, Repr, Inhabited

structure Settings where
  shell : ShellSettings
  log : LogSettings := {}
  deriving DecidableEq, Repr, Inhabited

structure UserPlaces where
  /-- The home directory, for which a tilde stands. -/
  home : Path
  /-- The settings file used where the working directory holds none. -/
  settingsFile : Path
  /-- The history file used unless the settings name another. -/
  historyFile : Path
  /-- The home directories of the users that are known by name. -/
  others : List (String × Path) := []
  deriving Repr, Inhabited

/-- The settings in force where no source says otherwise. -/
def Settings.default (places : UserPlaces) : Settings :=
  { shell := { historyFile := places.historyFile.toString } }

/-- Why a tilde in a path stands for no home directory. -/
inductive PathFault where
  /-- It names a user who is not known. -/
  | unknownUser
  /-- The name of the user holds the character NUL. -/
  | nul
  deriving DecidableEq, Repr

def PathFault.message : PathFault → String
  | unknownUser => "Could not determine home directory."
  | nul => "embedded null byte"

/-- The home directory of a user, whom no name need be given for. -/
def UserPlaces.homeOf (places : UserPlaces) (user : String) : Except PathFault Path :=
  if user = "" then .ok places.home
  else if user.toList.contains '\x00' then .error .nul
  else match places.others.lookup user with
    | some home => .ok home
    | none => .error .unknownUser

/-- The path that a text names, a tilde at its start being a home directory. -/
def UserPlaces.path (places : UserPlaces) (text : String) : Except PathFault Path :=
  (Path.ofString text).expandHome places.homeOf

/-- The path of the history file; none if the setting is blank. -/
def Settings.historyPath (s : Settings) (places : UserPlaces) : Except PathFault (Option Path) :=
  let raw := Text.trim s.shell.historyFile.toList
  if raw.isEmpty then .ok none else (places.path (String.ofList raw)).map some

end LineShell
