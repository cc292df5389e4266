import LineShell.Command.Table
import LineShell.Log.Event
import LineShell.Settings.File
import LineShell.Text.Template

/-!
Failures: why an operation was given up. Some are found by the shell itself, others are raised by
the code that uses it or by the system below it.
-/

namespace LineShell

inductive FailureKind where
  /-- A failure at run time, of no further kind. -/
  | runtime
  /-- An operation that is not supported, a special failure at run time. -/
  | unsupported
  | value
  | system
  | shell
  | other (name : String)
  deriving DecidableEq, Repr

/-- Why settings cannot be loaded, a library being used for it. -/
inductive Settings.Trouble where
  | known (fault : Settings.LoadFault)
  /-- Raised by the library, with a report. -/
  | raised (kind : FailureKind) (report : String)
  deriving DecidableEq, Repr

namespace Settings.Trouble

/-- The first line of the full report. -/
def headline : Trouble → String
  | known fault => fault.headline
  | raised _ report => String.ofList (report.toList.takeWhile (· ≠ '\n'))

/-- What a library raises is reported to the user if it is about a value or comes from the
system. -/
def isReported : Trouble → Bool
  | known fault => fault.isReported
  | raised kind _ => kind = .value || kind = .system

end Settings.Trouble

/-- The library that settings are read with, unless another is given. -/
def Settings.Library.usual : Settings.Library Settings.Trouble := .mapFault .known .standard

structure OutOfOrder where
  operation : String
  reason : String
  deriving DecidableEq, Repr

def OutOfOrder.message (o : OutOfOrder) : String :=
  "Cannot " ++ o.operation ++ ": " ++ o.reason

structure HandlerFault where
  signalName : String
  reason : String
  deriving DecidableEq, Repr

def HandlerFault.message (f : HandlerFault) : String :=
  "Failed to install handler for " ++ f.signalName ++ ": " ++ f.reason

/-- Why an operation was given up. -/
inductive Failure where
  /-- Raised from outside, with a report. -/
  | raised (kind : FailureKind) (report : String)
  | outOfOrder (fault : OutOfOrder)
  | template (fault : Text.Template.Fault)
  | table (fault : Command.TableFault)
  | file (fault : Files.Fault)
  | settings (fault : Settings.LoadFault)
  /-- The position in the history is behind its end. -/
  | noHistoryEntry
  /-- The handling of keys failed, so that no more can be read. -/
  | keysStalled
  | tooDeep
  deriving DecidableEq, Repr

namespace Failure

def message : Failure → String
  | raised _ report => report
  | outOfOrder fault => fault.message
  | template fault => fault.message
  | table fault => fault.message
  | file fault => fault.message
  | settings fault => fault.message
  | noHistoryEntry => "list index out of range"
  | keysStalled => ""
  | tooDeep => "maximum recursion depth exceeded"

def ofTrouble : Settings.Trouble → Failure
  | .known fault => settings fault
  | .raised kind report => raised kind report

/-- The failure to set up a log with something that is no level. -/
def ofLevel : Log.LevelFault → Failure
  | .text value => raised (.other "KeyError") (Text.quoted value)
  | .table => raised (.other "TypeError") "unhashable type: 'dict'"

/-- A failure of the system that removing a signal handler may end in. -/
def isHandlerTrouble : Failure → Bool
  | raised kind _ => kind = .runtime || kind = .unsupported || kind = .value
  | _ => false

/-- A failure of the system that registering a signal handler may end in. -/
def isSetupTrouble (f : Failure) : Bool :=
  f.isHandlerTrouble || (match f with
    | raised kind _ => kind = .system
    | _ => false)

end Failure

/-- Why no log can be set up with the level that settings name. -/
def Settings.levelFailure (settings : Settings) : Option Failure :=
  (Log.levelFault settings.log.level).map .ofLevel

/-- What ends an operation before its time. -/
inductive Interrupt where
  | failure (f : Failure)
  /-- The program is to end with an exit code. -/
  | exit (code : Nat)
  deriving DecidableEq, Repr

end LineShell
