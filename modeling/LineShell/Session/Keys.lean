import LineShell.Session.Commands

/-!
Keys at work. Each key that changes the line or the prompt is followed by a drawing of both; a
carriage return hands the line on, and a tab completes the word under the cursor.
-/

namespace LineShell.Session

open Edit

variable {σ : Type}

def setDisplayHook (s : Session σ) (hook : Option (String → List String → Nat → Program σ)) :
    Session σ :=
  { s with completion := s.completion.map fun e => { e with displayHook := hook } }

/-- Notes whether the last attempt at completion found nothing. -/
def setAttemptOver (s : Session σ) (nothing : Bool) : Session σ :=
  { s with completion := s.completion.map fun e => { e with attemptOver := nothing } }

/-- Takes completions from a generator, from number `state` on, `left` of them at most. -/
def collect (call : Program σ → Act σ Reply) (generator : String → Nat → Program σ)
    (text : String) : (left state : Nat) → Act σ (List String)
  | 0, _ => do
    modify (·.log ⟨.warning, "Completion generator truncated",
      [("text", .text text), ("limit", .int Completion.limit)]⟩)
    return []
  | left + 1, state => do
    match ← call (generator text state) with
    | .candidate (some found) => return found :: (← collect call generator text left (state + 1))
    | _ => return []

/-- The completions of an argument, the line before it being given: those of the generator of the
command that the line names. -/
def completeArgument (call : Program σ → Act σ Reply) (text : String) (before : List Char) :
    Act σ (List String) := do
  let name := String.ofList (Text.firstWord before)
  if name = "" then return []
  match (← get).registry.resolveGenerator? name with
  | none => return []
  | some (e, generator) =>
    modify (·.setDisplayHook e.displayHook)
    collect call generator text Completion.limit 0

/-- What a text that begins at an offset of the line may be completed to: command names at offset
zero, and arguments behind it. -/
def candidates (call : Program σ → Act σ Reply) (text : String) (start : Int) (line : List Char) :
    Act σ (List String) := do
  if start = 0 then
    modify (·.setDisplayHook none)
    return (← get).registry.namesFrom text
  else completeArgument call text (Text.sliceTo line start)

/-- The completions of a text that begins at an offset of the line. -/
def complete (call : Program σ → Act σ Reply) (text : String) (start : Int) (line : List Char) :
    Act σ (List String) := do
  modify (·.setAttemptOver false)
  let found ← candidates call text start line
  if found.isEmpty then modify (·.setAttemptOver true)
  return found

def completeWord (call : Program σ → Act σ Reply) (l : Line) : Act σ (List String) :=
  complete call (String.ofList (Completion.word l.before)) (Completion.wordStart l.before) l.text

/-- Shows completions: through the hook of the command that they belong to, or else in columns. -/
def showCompletions (call : Program σ → Act σ Reply) (word : String) (found : List String) :
    Act σ Unit := do
  let s ← get
  match s.completion.bind (·.displayHook) with
  | some hook =>
    let _ ← call (hook word found (Columns.longest found))
  | none =>
    let rows := Columns.layout found (Columns.terminalWidth s.host.env)
    modify (·.onEditor (·.emit (.listing rows)))
  modify (·.onEditor (·.redisplay))

/-- Completes the word before the point: a single completion takes its place, of several what they
have in common is added, and if that is nothing they are shown. -/
def completeKey (call : Program σ → Act σ Reply) : Act σ Unit := do
  let s ← get
  if s.completion.isNone then return
  let before := s.editor.line.before
  let word := Completion.word before
  let found ← completeWord call s.editor.line
  match found with
  | [] => return
  | [only] =>
    modify (·.onEditor fun e =>
      { e with line := (e.line.deleteBefore word.length).insert (only.toList ++ [' ']) }.redisplay)
  | _ =>
    let common := Completion.commonSuffix before word.length (found.map String.toList)
    if common.isEmpty then showCompletions call (String.ofList word) found
    else modify (·.onEditor fun e => (e.insertText common).redisplay)

/-- Hands the line on. While it is handled no line is being edited; afterwards the prompt is drawn
again, if keys are still accepted. -/
def acceptLine (call : Program σ → Act σ Reply) : Act σ Unit := do
  let line := (← get).editor.line.toString
  modify (·.onEditor fun e => { e.endRow with line := {}, recalled := none, handling := true })
  Act.ensuring (consume call (some line)) (·.onEditor fun e => { e with handling := false })
  modify (·.onEditor (·.redisplayIfInstalled))

/-- Hands the end of the input on, and empties the line. -/
def endOfInput (call : Program σ → Act σ Reply) : Act σ Unit := do
  modify (·.onEditor fun e => { e with handling := true })
  Act.ensuring (consume call none) (·.onEditor fun e => { e with handling := false })
  modify (·.onEditor fun e => { e with line := {} })

def recallOlder : Act σ Unit := do
  let (e, missing) := (← get).editor.recallOlder
  modify (·.onEditor fun _ => e)
  if missing then Act.fail .noHistoryEntry
  modify (·.onEditor (·.redisplay))

/-- Handles a key that does more than edit the line, or nothing. -/
def specialKey (call : Program σ → Act σ Reply) (k : Key) : Act σ Unit := do
  match k with
  | .carriageReturn | .lineFeed => acceptLine call
  | .tab => completeKey call
  | .older => recallOlder
  | .newer => modify (·.onEditor fun e => e.recallNewer.redisplay)
  | .other name => modify (·.log ⟨.debug, "Ignoring key", [("key", .text name)]⟩)
  | _ => return

/-- Handles a key. A line feed directly behind a carriage return is part of it. -/
def pressKey (call : Program σ → Act σ Reply) (k : Key) : Act σ Unit := do
  let e := (← get).editor
  if !e.installed then return
  if k = .lineFeed && e.afterReturn then
    modify (·.onEditor fun e => { e with afterReturn := false })
  else
    modify (·.onEditor fun e => { e with afterReturn := k = .carriageReturn })
    if k = .controlD && e.line.text.isEmpty then endOfInput call
    else
      match Editor.edit? e.line k with
      | some line => modify (·.onEditor fun e => { e with line }.redisplay)
      | none => specialKey call k

/-- Delivers a decoded key; the one that announces pasted text begins the paste. -/
def deliverKey (call : Program σ → Act σ Reply) (k : Key) : Act σ Unit := do
  if k = .pasteStart then
    modify (·.onEditor fun e => { e with decoder := { e.decoder with paste := some [] } })
  else pressKey call k

def setDecoder (s : Session σ) (d : KeyDecoder) : Session σ :=
  s.onEditor fun e => { e with decoder := d }

def readyKeys (s : Session σ) : Session σ :=
  s.onEditor fun e => { e with decoder := { e.decoder with progress := .ready } }

def breakKeys (s : Session σ) : Session σ :=
  s.onEditor fun e => { e with decoder := e.decoder.giveUp }

/-- Why a decoder that is stalled reads no character. -/
def stallFailure (d : KeyDecoder) : Failure :=
  if d.progress = .busy then .raised .value "generator already executing" else .keysStalled

/-- Delivers the keys that a character settles, behind which the next one can be read. -/
def handleKeys (call : Program σ → Act σ Reply) (keys : List Key) : Act σ Unit := do
  keys.forM (deliverKey call)
  modify readyKeys

/-- A character arrives. While its keys are handled no other can be read, and none after a failure
until the decoder has been reset. -/
def feedChar (call : Program σ → Act σ Reply) (c : Char) : Act σ Unit := do
  let d := (← get).editor.decoder
  match d.paste with
  | some received =>
    match KeyDecoder.readPaste received c with
    | .inr received => modify (·.setDecoder { d with paste := some received })
    | .inl content =>
      pressKey call (.pasted content)
      modify (·.onEditor fun e => { e with decoder := { e.decoder with paste := none } })
  | none =>
    if d.stalled then Act.fail (stallFailure d)
    let (keys, d) := d.read c
    modify (·.setDecoder { d with progress := .busy })
    Act.ensuring (handleKeys call keys) breakKeys

/-- Characters arrive. They count for nothing unless keys are accepted. -/
def feed (call : Program σ → Act σ Reply) (text : List Char) : Act σ Unit := do
  if (← get).editor.installed then text.forM (feedChar call)

end LineShell.Session
