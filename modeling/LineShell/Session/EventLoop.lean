import LineShell.Session.Execution

/-!
The event loop of a shell. What happens, happens in turns; after each turn the input that has
arrived is read, and a failure ends only the callback that it occurred in. The loop stops when the
shell is asked to end, or when the input ends, and the shell is torn down however it stops.
-/

namespace LineShell

inductive Occurrence (σ : Type) where
  | bytes (data : List UInt8)
  | signal (s : Signal)
  | program (p : Program σ)

namespace Session

variable {σ : Type}

def stopping (s : Session σ) : Bool := s.loop.any (·.stopping)

/-- A callback of the loop: a failure goes no further. -/
def callback (body : Act σ Unit) : Act σ Unit := do
  match ← Act.outcome body with
  | .error (.exit code) => throw (.exit code)
  | _ => return

/-- Reads what has arrived, and hands it to the editor. -/
def readInput (source : Input.Source) : Act σ Unit := do
  let (bytes, channel) := (← get).channel.read
  let (arrival, source) := source.receive bytes
  modify fun s => { s with channel, reader := some source, input := s.input.map fun
    | .source _ => .source source
    | .unknown => .unknown }
  match arrival with
  | .text text => let _ ← (Program.single (.feed (String.ofList text))).execute
  | .nothing => return
  | .hangUp => modify hangUp

/-- Reads the input until all that has arrived is read, the loop is to stop, or the input is given
up. Every reading takes bytes, so `fuel` need not exceed their number. -/
def drain : (fuel : Nat) → Act σ Unit
  | 0 => return
  | fuel + 1 => do
    let s ← get
    match s.reader with
    | none => return
    | some source =>
      if s.stopping || s.channel.queue.isEmpty then return
      callback (readInput source)
      drain fuel

def occur : Occurrence σ → Act σ Unit
  | .bytes data => modify fun s => { s with channel := s.channel.arrive data }
  | .signal signal => modify (·.receiveSignal signal)
  | .program p => do
    let _ ← p.execute

def turn (occurrences : List (Occurrence σ)) : Act σ Unit :=
  callback (occurrences.forM occur)

/-- Turns of the loop, until it is to stop. Behind the last one the input ends. -/
def turns : List (List (Occurrence σ)) → Act σ Unit
  | [] => do
    let s ← get
    if s.stopping then return
    match s.reader with
    | some source => callback (readInput source)
    | none => modify quit
  | occurrences :: rest => do
    if (← get).stopping then return
    turn occurrences
    drain ((← get).channel.queue.length)
    turns rest

/-- A loop that was asked to stop before it runs takes a single turn. -/
def loopBody (events : List (List (Occurrence σ))) : Act σ Unit := do
  if (← get).stopping then
    match events with
    | first :: _ => turn first
    | [] => return
  else
    drain ((← get).channel.queue.length)
    turns events

/-- Begins to serve a shell that has been started: the signals are handled from now on. -/
def beginService : Act σ Unit := do
  if (← get).loop.isNone then Act.fail (.outOfOrder ⟨"run", "init() has not been called"⟩)
  modify fun s => { s with bridge := {} }
  adoptBridge ((← get).bridge.install {})

/-- Serves what has arrived; no bytes are the end of the input. -/
def serve (bytes : List UInt8) : Act σ Unit := do
  modify fun s => { s with channel := s.channel.arrive bytes }
  if bytes.isEmpty then turns [] else drain bytes.length

/-- Ends the service: the loop has stopped, and the shell is torn down. -/
def endService : Act σ Unit := do
  modify fun s => { s with loop := s.loop.map fun l => { l with stopping := false } }
  tearDown Program.execute

/-- Runs the event loop until the shell is asked to end, and tears the shell down. -/
def run (events : List (List (Occurrence σ))) : Act σ Unit := do
  beginService
  let ended ← Act.outcome (loopBody events)
  endService
  match ended with
  | .ok _ => return
  | .error cause => throw cause

end Session

end LineShell
