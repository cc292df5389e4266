import LineShell.Options
import LineShell.Session.Commands

/-!
The life of a shell: it is started with a command line, an input is attached, signals arrive, and in
the end it is torn down, which gives back all that it holds.
-/

namespace LineShell.Session

variable {σ : Type}

/-- What is printed in place of the help text, whose wording is left open. -/
def helpText : String := "Usage: "

/-- Writes a line to the standard output, beside the screen. -/
def printLine (s : Session σ) (line : String) : Session σ :=
  { s with host := { s.host with printed := (line ++ "\n") :: s.host.printed } }

/-- Ends the program with a code, after a line on the error stream. -/
def exitWith {α : Type} (report : String) : Act σ α := do
  modify (·.reportLine report)
  throw (.exit 1)

/-- The settings of the file that a command line names, or else those in force. A settings file that
cannot be used ends the program; what is no fault of the file or the settings is a failure. -/
def namedSettings (o : Options) : Act σ Settings := do
  let s ← get
  if o.config = "" then return s.settings
  else
    match Settings.loadWith .known s.host.library s.host.store s.host.env s.host.places
        (some o.config) with
    | .ok settings => return settings
    | .error trouble =>
      if trouble.isReported then exitWith ("Failed to load config: " ++ trouble.headline)
      else Act.fail (.ofTrouble trouble)

def requestedSettings (o : Options) : Act σ Settings := do
  let settings ← namedSettings o
  return if o.verbose then { settings with log := { settings.log with level := "DEBUG" } }
    else settings

/-- Puts settings into force for the whole process, the log going to the screen. -/
def adoptSettings (s : Session σ) (settings : Settings) : Session σ :=
  let s := { s with host := { s.host with settings } }
  let s := s.applySettings settings
  { s with host := { s.host with screenLog := true } }.configureLog

/-- Loads the history file. A file that cannot be used is only logged; a path that cannot name a
file is a failure. -/
def loadHistory (path : Path) : Act σ Unit := do
  let s ← get
  let (loaded, store) := s.editor.history.load s.host.store path
  modify fun s => { s with host := { s.host with store } }
  match loaded with
  | .ok history => modify (·.onEditor fun e => { e with history })
  | .error (.refused cause p) =>
    modify (·.log ⟨.debug, "Failed to load history",
      [("path", .text path.toString), ("error", .text (Files.Fault.refused cause p).message)]⟩)
  | .error fault => Act.fail (.file fault)

/-- Begins a run of the shell: a new event loop, and the prompt. -/
def beginRun (s : Session σ) : Session σ :=
  { s with loop := some {}, quitting := false, tornDown := false }.onEditor
    (·.install s.settings.shell.prompt)

/-- Loads the history file that the settings name, if they name one. -/
def openHistory (settings : Settings) : Act σ Unit := do
  match settings.historyPath (← get).host.places with
  | .error fault => Act.fail (.settings (.ofPath fault))
  | .ok none => return
  | .ok (some path) => loadHistory path

/-- Starts the shell with options: the positional arguments. -/
def startWith (o : Options) : Act σ (List String) := do
  let settings ← requestedSettings o
  modify (·.adoptSettings settings)
  checkLevel settings
  openHistory settings
  modify beginRun
  return o.args

/-- Ends the program with success, after a line on the standard output. -/
def endWith {α : Type} (line : String) : Act σ α := do
  modify (·.printLine line)
  throw (.exit 0)

/-- Starts the shell with a command line, the program's name being first: the positional
arguments. -/
def start (argv : List String) : Act σ (List String) :=
  match Options.ofArgs argv with
  | .error fault => exitWith fault.message
  | .ok o =>
    if o.help then endWith helpText
    else if o.version then endWith version
    else startWith o

/-- Reads input from a channel, unless an input is attached. -/
def attach (descriptor : Nat) : Act σ Bool := do
  let s ← get
  if s.input.isSome then return false
  if s.loop.isNone then Act.fail (.outOfOrder ⟨"attach input", "init() has not been called"⟩)
  let opened := (Input.Source.mk descriptor false none .start).openOn s.channel
  modify fun s => { s with channel := opened.channel }.logAll opened.events
  match opened.failure with
  | some failure => Act.fail failure
  | none =>
    modify fun s =>
      { s with input := some (.source opened.source), reader := some opened.source }.log
        ⟨.debug, "Input attached", [("fd", .int descriptor)]⟩
    return true

def detach : Act σ Bool := do
  let s ← get
  match s.input with
  | none => return false
  | some .unknown =>
    modify fun s => { s with input := none }
    return true
  | some (.source source) =>
    let closed := source.closeOn s.channel
    modify fun s => { s with input := none, channel := closed.channel }.logAll closed.events
    match closed.failure with
    | some failure => Act.fail failure
    | none =>
      modify fun s =>
        { s with reader := none }.log ⟨.debug, "Input detached", [("fd", .int source.descriptor)]⟩
      return true

/-- Takes what a call of the signal bridge leaves behind. -/
def adoptBridge (o : SignalBridge.Outcome) : Act σ Unit := do
  modify fun s => (o.lines.foldl reportLine { s with bridge := o.bridge }).logAll o.events
  match o.failure with
  | some failure => Act.fail failure
  | none => return

def discardLine (s : Session σ) : Session σ :=
  s.onEditor fun e => (e.replaceLine []).newRow

/-- Ends the shell because of a signal, the first time. -/
def terminate (s : Session σ) : Session σ :=
  if s.bridge.terminated then s
  else
    let s := { s with bridge := { s.bridge with terminated := true } }
    (s.log ⟨.info, "Termination requested by signal", []⟩).discardLine.quit

/-- A signal arrives. An interrupt throws the line away while an input is attached. -/
def receiveSignal (s : Session σ) (signal : Signal) : Session σ :=
  match signal with
  | .interrupt =>
    if s.input.isSome then s.discardLine.onEditor (·.redisplay) else s.terminate
  | .terminate => s.terminate
  | .hangUp => s

/-- Takes the screen from the editor and from the log of a shell that is torn down. -/
def leaveScreen (s : Session σ) : Session σ :=
  let s := s.onEditor fun e => ((e.showMessage "").clearMessage).remove
  { s with host := { s.host with screenLog := false } }.configureLog

/-- The last steps of tearing a shell down: the editor, the log, and the loop. -/
def closeDown : Act σ Unit := do
  modify leaveScreen
  checkLevel (← get).host.settings
  modify fun s => { s with loop := none }

/-- Tears the shell down, once: the request that is waiting is answered with nothing, the input is
given up, and the signals are no longer handled. -/
def tearDown (call : Program σ → Act σ Reply) : Act σ Unit := do
  if (← get).tornDown then return
  modify fun s => { s with tornDown := true }
  let _ ← release call ""
  let _ ← detach
  adoptBridge (← get).bridge.uninstall
  closeDown

end LineShell.Session
