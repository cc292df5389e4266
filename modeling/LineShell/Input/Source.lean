import LineShell.Input.Channel
import LineShell.Log.Event

/-!
Input sources. While a source is open its channel is watched, and a terminal is in immediate mode;
closing it puts the terminal's mode back, whatever else fails. Bytes become text piece by piece, a
character cut between two readings being kept until it is complete.
-/

namespace LineShell.Input

structure Source where
  descriptor : Nat
  isOpen : Bool := false
  /-- The terminal's mode before the source was opened. -/
  savedMode : Option Mode := none
  decoder : Text.Utf8.State := .start
  deriving Repr, Inhabited

/-- What a call leaves behind: source and channel, the events for the log, and the failure that
ended it, if any. -/
structure Outcome where
  source : Source
  channel : Channel
  events : List Log.Event := []
  failure : Option Failure := none

namespace Source

/-- The event of a call that the terminal refuses. -/
def refusal (s : Source) (message report : String) : Log.Event :=
  ⟨.warning, message, [("fd", .int s.descriptor), ("error", .text report)]⟩

/-- Puts a terminal into immediate mode and notes its mode before. -/
def takeTerminal (s : Source) (p : Channel) : Outcome :=
  if !p.isTerminal then { source := s, channel := p }
  else
    let refused (report : String) : Outcome :=
      { source := { s with savedMode := none }, channel := p,
        events := [s.refusal "Failed to set terminal mode" report] }
    match p.terminalFaults.lookup .readMode, p.terminalFaults.lookup .setImmediate with
    | some report, _ => refused report
    | none, some report => refused report
    | none, none =>
      { source := { s with savedMode := some p.mode }, channel := { p with mode := .immediate } }

def releaseTerminal (s : Source) (p : Channel) : Outcome :=
  match s.savedMode with
  | none => { source := s, channel := p }
  | some mode =>
    let s := { s with savedMode := none }
    match p.terminalFaults.lookup .restoreMode with
    | some report =>
      { source := s, channel := p, events := [s.refusal "Failed to restore terminal mode" report] }
    | none => { source := s, channel := { p with mode } }

/-- Opens a source. If its channel cannot be watched it stays closed. -/
def openOn (s : Source) (p : Channel) : Outcome :=
  if s.isOpen then { source := s, channel := p }
  else
    let taken := s.takeTerminal p
    match taken.channel.loopFaults.lookup .watch with
    | some failure =>
      let released := taken.source.releaseTerminal taken.channel
      { released with events := taken.events ++ released.events, failure := some failure }
    | none =>
      { taken with
        source := { taken.source with isOpen := true }
        channel := { taken.channel with watched := true } }

/-- Closes a source. The mode of the terminal is put back even if the loop goes on watching. -/
def closeOn (s : Source) (p : Channel) : Outcome :=
  if !s.isOpen then { source := s, channel := p }
  else
    let s := { s with isOpen := false }
    match p.loopFaults.lookup .unwatch with
    | some failure => { s.releaseTerminal p with failure := some failure }
    | none => s.releaseTerminal { p with watched := false }

inductive Arrival where
  | text (s : List Char)
  /-- Part of a character. -/
  | nothing
  | hangUp
  deriving DecidableEq, Repr

/-- Takes the bytes of a reading; none are the end of the input. -/
def receive (s : Source) (bytes : List UInt8) : Arrival × Source :=
  if bytes.isEmpty then (.hangUp, s)
  else
    let (text, decoder) := s.decoder.run bytes
    (if text.isEmpty then .nothing else .text text, { s with decoder })

/-- The event of a reading that fails. -/
def readFault (s : Source) (report : String) : Log.Event :=
  ⟨.debug, "Input read failed", [("fd", .int s.descriptor), ("error", .text report)]⟩

end Source

end LineShell.Input
