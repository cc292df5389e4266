import LineShell.Failure
import LineShell.Log.Event

/-!
Signals. A bridge has the handlers of two signals registered with an event loop, both or none: where
one cannot be registered, the other is taken away again.
-/

namespace LineShell

/-- The signals that concern a shell. -/
inductive Signal where
  | interrupt
  | terminate
  | hangUp
  deriving DecidableEq, Repr

def Signal.name : Signal → String
  | interrupt => "SIGINT"
  | terminate => "SIGTERM"
  | hangUp => "SIGHUP"

/-- The signals that are handled, in the order in which their handlers are registered. -/
def Signal.handled : List Signal := [interrupt, terminate]

/-- The handlers of an event loop, and the calls that it refuses. -/
structure SignalLoop where
  registered : List Signal := []
  /-- The signals for which no handler is accepted. -/
  setupFaults : List (Signal × Failure) := []
  /-- Why no handler is taken away. -/
  removalFault : Option Failure := none
  deriving Repr

/-- The handlers that a bridge has registered. -/
structure SignalBridge where
  /-- The signals with a handler, in the order of registration. -/
  installed : List Signal := []
  /-- The loop that the handlers are registered with. -/
  loop : Option SignalLoop := none
  /-- A signal has ended the shell. -/
  terminated : Bool := false
  deriving Repr, Inhabited

namespace SignalBridge

/-- What a call leaves behind: the bridge, the lines for the error stream, the events for the log,
and the failure that ended it, if any. -/
structure Outcome where
  bridge : SignalBridge
  lines : List String := []
  events : List Log.Event := []
  failure : Option Failure := none

/-- The event of a handler that cannot be taken away. -/
def removalEvent (s : Signal) (f : Failure) : Log.Event :=
  ⟨.debug, "Failed to remove signal handler",
    [("signal", .text s.name), ("error", .text f.message)]⟩

/-- Takes the handlers of some signals away from a loop, one after the other. -/
def takeAway (loop : SignalLoop) :
    List Signal → List Signal × SignalLoop × List Log.Event × Option Failure
  | [] => ([], loop, [], none)
  | s :: rest =>
    match loop.removalFault with
    | none => takeAway { loop with registered := loop.registered.filter (· ≠ s) } rest
    | some f =>
      if f.isHandlerTrouble then
        let (left, loop, events, failure) := takeAway loop rest
        (left, loop, removalEvent s f :: events, failure)
      else (rest, loop, [], some f)

/-- Takes all handlers away, the latest first. -/
def uninstall (b : SignalBridge) : Outcome :=
  match b.loop with
  | none => { bridge := b }
  | some loop =>
    let (left, loop, events, failure) := takeAway loop b.installed.reverse
    { bridge := { b with installed := left.reverse, loop := some loop }, events, failure }

/-- Registers handlers for some signals: the bridge, and the signal that was refused, if any, with
the failure. -/
def register (b : SignalBridge) (loop : SignalLoop) :
    List Signal → SignalBridge × Option (Signal × Failure)
  | [] => ({ b with loop := some loop }, none)
  | s :: rest =>
    match loop.setupFaults.lookup s with
    | some f => ({ b with loop := some loop }, some (s, f))
    | none =>
      register { b with installed := b.installed ++ [s] }
        { loop with registered := loop.registered ++ [s] } rest

/-- The event of a bridge that is given up. -/
def setupEvent (report : String) : Log.Event :=
  ⟨.warning, "Signal handling disabled", [("error", .text report)]⟩

/-- Registers the handlers with a loop, unless they are registered already. Where one is refused for
a reason that lies in the system, this is reported and the others are taken away. -/
def install (b : SignalBridge) (loop : SignalLoop) : Outcome :=
  if !b.installed.isEmpty then { bridge := b }
  else
    match b.register loop Signal.handled with
    | (b, none) => { bridge := b }
    | (b, some (s, f)) =>
      if f.isSetupTrouble then
        let report := (HandlerFault.mk s.name f.message).message
        let undone := b.uninstall
        { undone with lines := [report], events := setupEvent report :: undone.events }
      else { bridge := b, failure := some f }

end SignalBridge

end LineShell
