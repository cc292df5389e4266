import LineShell.Colour
import LineShell.Completion
import LineShell.Edit.Editor
import LineShell.Input.Source
import LineShell.Program
import LineShell.Signals

/-!
The state of a shell and actions on it. An action may end early, by a failure or because the program
is to end; what it has changed until then stays changed.
-/

namespace LineShell

/-- What becomes of a completed line. -/
inductive Consumer (σ : Type) where
  /-- It answers a request or is run as a command. -/
  | commands
  /-- It goes to a program; so does the end of the input, as no line. -/
  | program (handler : Option String → Program σ)

structure PendingRequest (σ : Type) where
  callback : Option (String → Datum → Program σ)
  data : Datum

/-- What becomes of a request. -/
inductive Deed (σ : Type) where
  /-- It begins, its message being painted or not. -/
  | asked (r : PendingRequest σ) (colours : Bool) (label message : String)
  /-- It is made in vain, another one being there. -/
  | refused (r : PendingRequest σ)
  /-- It is over, and its callback is about to be run with the answer. -/
  | answered (r : PendingRequest σ) (answer : String)

inductive Attachment where
  | source (s : Input.Source)
  /-- An input about which nothing is known. -/
  | unknown
  deriving Repr

structure EventLoop where
  /-- The loop is to stop as soon as the present callback is done. -/
  stopping : Bool := false
  deriving DecidableEq, Repr

/-- The system around a shell: files, environment, clock, and what is kept for the whole process. -/
structure Host where
  store : Files.Store := {}
  env : Settings.Environment := []
  places : UserPlaces
  logTime : String
  entryTime : String
  outputIsTerminal : Bool := false
  /-- What settings are read with. -/
  library : Settings.Library Settings.Trouble := .usual
  settings : Settings
  /-- The log is to go to the screen of the shell. -/
  screenLog : Bool := false
  /-- How and where the log is written: its format, and whether it goes to the screen. -/
  log : Option (Log.Format × Bool) := none
  /-- The text written to the error stream, latest part first. -/
  errors : List String := []
  /-- The text written to the standard output beside the screen, latest part first. -/
  printed : List String := []

structure Session (σ : Type) where
  host : Host
  editor : Edit.Editor := {}
  registry : Command.Registry (Program σ)
  completion : Option (Completion.Engine (Program σ)) := some {}
  consumer : Consumer σ := .commands
  request : Option (PendingRequest σ) := none
  /-- All that became of requests, newest first. -/
  journal : List (Deed σ) := []
  input : Option Attachment := none
  /-- The source that the channel's reader belongs to. -/
  reader : Option Input.Source := none
  channel : Input.Channel := {}
  loop : Option EventLoop := none
  bridge : SignalBridge := {}
  /-- The shell has been asked to end. -/
  quitting : Bool := false
  tornDown : Bool := false
  settings : Settings
  colours : Bool := false
  programs : σ

abbrev Act (σ : Type) := ExceptT Interrupt (StateM (Session σ))

namespace Act

variable {σ α : Type}

def fail (f : Failure) : Act σ α := throw (.failure f)

/-- Runs an action, and then changes the state, however the action has ended. -/
def ensuring (body : Act σ α) (after : Session σ → Session σ) : Act σ α :=
  ExceptT.mk fun s =>
    let (r, s) := body.run.run s
    (r, after s)

/-- Runs an action, and yields what has ended it if it was given up. -/
def outcome (body : Act σ α) : Act σ (Except Interrupt α) :=
  ExceptT.mk fun s =>
    let (r, s) := body.run.run s
    (.ok r, s)

end Act

namespace Session

variable {σ : Type}

def onEditor (s : Session σ) (change : Edit.Editor → Edit.Editor) : Session σ :=
  { s with editor := change s.editor }

def printText (s : Session σ) (text : String) : Session σ :=
  s.onEditor (·.print text)

def reportLine (s : Session σ) (line : String) : Session σ :=
  { s with host := { s.host with errors := (line ++ "\n") :: s.host.errors } }

def logLine (toScreen : Bool) (s : Session σ) (line : String) : Session σ :=
  if toScreen then s.printText (line ++ "\n") else s.reportLine line

def log (s : Session σ) (e : Log.Event) : Session σ :=
  match s.host.log with
  | none => s
  | some (format, toScreen) => (format.linesOf s.host.logTime e).foldl (logLine toScreen) s

def logAll (s : Session σ) (es : List Log.Event) : Session σ :=
  es.foldl log s

/-- Sets the log up as the settings of the process say. A level that is none leaves it as it was. -/
def configureLog (s : Session σ) : Session σ :=
  { s with host := { s.host with
      log := match s.host.settings.levelFailure with
        | none => some (.ofSettings s.host.settings.log, s.host.screenLog)
        | some _ => s.host.log } }

/-- Fails if no log can be set up with the level that settings name. -/
def checkLevel (settings : Settings) : Act σ Unit :=
  match settings.levelFailure with
  | none => return
  | some fault => Act.fail fault

/-- Text is painted where the settings allow it, the environment does not forbid it, and the output
is a terminal. -/
def paints (h : Host) (settings : Settings) : Bool :=
  settings.shell.colours && (h.env.lookup "NO_COLOR").getD "" = "" && h.outputIsTerminal

def applySettings (s : Session σ) (settings : Settings) : Session σ :=
  let s := { s with settings, colours := paints s.host settings }
  s.onEditor fun e =>
    { e with
      eraseEmptyLine := settings.shell.eraseEmptyLine
      history := { e.history with limit := settings.shell.historyLength } }

/-- Adds a line to the history. That it cannot be added to the file is only logged, unless the path
cannot name a file. -/
def remember (line : String) : Act σ Bool := do
  let s ← get
  let (kept, history, store, fault) := s.editor.history.add s.host.store s.host.entryTime line
  modify fun s => { s.onEditor fun e => { e with history } with host := { s.host with store } }
  match fault with
  | none => return kept
  | some .nul => Act.fail (.file .nul)
  | some f =>
    modify (·.log ⟨.debug, "Failed to save history", [("error", .text f.message)]⟩)
    return kept

def highlighted (s : Session σ) (text : String) : String :=
  Colour.highlight.paint s.colours text

def printHighlighted (s : Session σ) (text : String) : Session σ :=
  s.printText (s.highlighted text ++ "\n")

/-- Ends the shell: keys are no longer accepted, and the loop stops. -/
def quit (s : Session σ) : Session σ :=
  let s := { s.onEditor (·.remove) with quitting := true }
  let s := s.log ⟨.debug, "Quit requested", []⟩
  { s with loop := s.loop.map fun l => { l with stopping := true } }

/-- The input has come to its end. -/
def hangUp (s : Session σ) : Session σ :=
  (s.log ⟨.info, "Input closed", []⟩).quit

/-- Changes the prompt of a shell that has been started. -/
def setPrompt (s : Session σ) (prompt : String) : Session σ :=
  if s.loop.isSome then s.onEditor (·.setPrompt prompt) else s

end Session

end LineShell
