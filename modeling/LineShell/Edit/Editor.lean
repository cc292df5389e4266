import LineShell.Edit.History
import LineShell.Edit.KeyDecoder
import LineShell.Edit.Screen

/-!
The line editor without the code that uses it: its state, the prompt, drawing, output beside the
edit line, and the keys that only edit. Output goes above the edit line, which is blanked for it and
drawn again; while a completed line is handled, or without an editor in use, it goes straight
through.
-/

namespace LineShell.Edit

structure Editor where
  line : Line := {}
  decoder : KeyDecoder := {}
  prompt : String := ""
  /-- All prompts that were given, newest first. -/
  given : List String := []
  /-- A text shown in place of the prompt. -/
  message : Option String := none
  /-- Messages put aside, the latest first. -/
  saved : List (Option String) := []
  /-- Keys are accepted. -/
  installed : Bool := false
  /-- A completed line is being handled. -/
  handling : Bool := false
  /-- The present row holds output that did not end with a line feed. -/
  midRow : Bool := false
  /-- The last key was a carriage return, so that a line feed is part of it. -/
  afterReturn : Bool := false
  /-- The history entry that is shown. -/
  recalled : Option Nat := none
  /-- The text to come back to from the history. -/
  draft : List Char := []
  eraseEmptyLine : Bool := true
  history : History := {}
  /-- All that was written, newest first. -/
  writes : List Write := []
  deriving Repr, Inhabited

namespace Editor

def active (e : Editor) : Bool := e.installed && !e.handling

def phase (e : Editor) : Phase :=
  if !e.installed then .removed else if e.handling then .handling else .editing

/-- What is shown before the line: the message, or else the prompt. -/
def visiblePrompt (e : Editor) : String := e.message.getD e.prompt

def emit (e : Editor) (w : Write) : Editor := { e with writes := w :: e.writes }

/-- Draws prompt and line, on a new row if the present one holds unfinished output. -/
def redisplay (e : Editor) : Editor :=
  { e.emit (.redraw e.midRow e.visiblePrompt e.line e.phase) with midRow := false }

def redisplayIfInstalled (e : Editor) : Editor :=
  if e.installed then e.redisplay else e

/-- Takes a prompt. -/
def give (e : Editor) (prompt : String) : Editor :=
  { e with prompt, given := prompt :: e.given }

def install (e : Editor) (prompt : String) : Editor :=
  { e.give prompt with installed := true, handling := false }.redisplay

/-- Stops accepting keys and forgets those that are incomplete. -/
def remove (e : Editor) : Editor :=
  { e with installed := false, decoder := {} }

def setPrompt (e : Editor) (prompt : String) : Editor :=
  (e.give prompt).redisplayIfInstalled

def savePrompt (e : Editor) : Editor :=
  { e with saved := e.message :: e.saved }

/-- Brings back the message put aside last, or the prompt. -/
def restorePrompt (e : Editor) : Editor :=
  { e with message := e.saved.headD none, saved := e.saved.tail }.redisplayIfInstalled

def showMessage (e : Editor) (text : String) : Editor :=
  { e with message := some text }.redisplayIfInstalled

def clearMessage (e : Editor) : Editor :=
  { e with message := none, saved := [] }

/-- Writes output that is not part of the edit line. -/
def write (e : Editor) (text : String) : Editor :=
  if text = "" then e
  else { e.emit (.output text e.phase) with midRow := text.toList.getLast? ≠ some '\n' }

def newRow (e : Editor) : Editor :=
  { e.emit .newRow with midRow := false }

/-- Replaces the line, the point going to its end. -/
def replaceLine (e : Editor) (text : List Char) : Editor :=
  { e with line := Line.ofText text }

def insertText (e : Editor) (text : List Char) : Editor :=
  { e with line := e.line.insert text }

/-- Puts the point as near to `n` as the line allows. -/
def movePoint (e : Editor) (n : Int) : Editor :=
  { e with line := e.line.moveTo n }

/-- Blanks the edit line, if one is being edited. -/
def blank (e : Editor) : Editor :=
  if e.active then e.emit .clear else e

/-- Puts `line` back and draws it. -/
def resume (e : Editor) (line : Line) : Editor :=
  { e with line }.redisplay

def print (e : Editor) (text : String) : Editor :=
  if e.active then (e.blank.write text).resume e.line else e.write text

/-- Ends the row of a completed line; an empty line may be erased instead. -/
def endRow (e : Editor) : Editor :=
  if e.line.text.isEmpty && e.eraseEmptyLine then e.emit .clear else e.newRow

/-- Begins to walk the history, the present line being kept as the draft, unless that has begun. -/
def beginRecall (e : Editor) : Editor :=
  match e.recalled with
  | some _ => e
  | none => { e with draft := e.line.text, recalled := some e.history.entries.length }

/-- Shows the next older history entry. The flag says that there is no entry at the position. -/
def recallOlder (e : Editor) : Editor × Bool :=
  if e.history.entries.isEmpty then (e, false)
  else
    let e := e.beginRecall
    match e.recalled with
    | some (i + 1) =>
      let e := { e with recalled := some i }
      match e.history.entries[i]? with
      | some entry => (e.replaceLine entry.toList, false)
      | none => (e, true)
    | _ => (e, false)

/-- Shows the next newer history entry, and behind the newest one the draft. -/
def recallNewer (e : Editor) : Editor :=
  match e.recalled with
  | none => e
  | some i =>
    match e.history.entries[i + 1]? with
    | some entry => { e with recalled := some (i + 1) }.replaceLine entry.toList
    | none => { e with recalled := none }.replaceLine e.draft

/-- What a key does to the line; none for the keys that do more or nothing. -/
def edit? (l : Line) : Key → Option Line
  | .literal c => some (l.insert [c])
  | .pasted content => some (l.insert ([' '].intercalate (Text.lines content)))
  | .controlD | .delete => some (l.deleteAfter 1)
  | .backspace => some (l.deleteBefore 1)
  | .lineStart => some l.moveHome
  | .lineEnd => some l.moveEnd
  | .left => some l.moveLeft
  | .right => some l.moveRight
  | .killAfter => some l.killAfter
  | .killBefore => some l.killBefore
  | .killWord => some l.killWord
  | _ => none

end Editor

end LineShell.Edit
