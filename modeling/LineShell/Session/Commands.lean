import LineShell.Hexdump
import LineShell.Command.Invocation
import LineShell.Session.Requests

/-!
Commands: their listing, running the one that a line names, and what becomes of a completed line. A
handler that fails is reported, and the shell goes on.
-/

namespace LineShell.Session

variable {σ : Type}

def version : String := "0.1.0"

def defaultCommands : List (Command.Entry (Program σ)) := [
  { name := "version", handler := fun _ => .single (.print "Version %s\n" [.text version]),
    description := "Display version" },
  { name := "quit", handler := fun _ => .single .quit, description := "Quit program" },
  { name := "exit", handler := fun _ => .single .quit, description := "Quit program" },
  { name := "help", handler := fun _ => .single .printMenu,
    description := "Display help about this program" }]

/-- Fills a template in and prints it above the edit line. -/
def print (template : String) (args : List Datum) : Act σ Unit := do
  if args.isEmpty then modify (·.printText template)
  else
    match Text.Template.fill template args with
    | .ok text => modify (·.printText text)
    | .error fault => Act.fail (.template fault)

/-- Prints bytes with their hexadecimal forms, row by row. -/
def dump (s : Session σ) (bytes : List UInt8) : Session σ :=
  (Hexdump.lines bytes).foldl (fun s line => s.printText (line ++ "\n")) s

/-- The columns that name and hint fill in the listing of commands. -/
def listingWidth : Nat := 48

def listingHead {π : Type} (e : Command.Entry π) : String :=
  e.name ++ " " ++ Text.padRight (listingWidth - e.name.length) (e.hint.getD "") ++ " "

/-- Prints the listing of commands: those of the menu, then the default ones. -/
def printMenu (s : Session σ) : Session σ :=
  let s := (s.printHighlighted "Available commands:").printHighlighted "-------------------"
  (s.registry.tables.flatMap (·.entries)).foldl (fun s e =>
    s.printText (s.highlighted (listingHead e) ++ e.description ++ "\n")) s

def commandFailed (s : Session σ) (name : String) (f : Failure) : Session σ :=
  let s := s.log ⟨.error, "Command failed", [("command", .text name), ("error", .text f.message)]⟩
  s.printHighlighted ("Command " ++ name ++ " failed: " ++ f.message)

/-- Runs the handler of a command. Only the end of the program gets through. -/
def runCommand (call : Program σ → Act σ Reply) (e : Command.Entry (Program σ))
    (i : Command.Invocation) : Act σ Unit := do
  modify (·.log ⟨.debug, "Executing command", [("command", .text i.name)]⟩)
  match ← Act.outcome (call (e.handler i.argument)) with
  | .ok _ => return
  | .error (.failure f) => modify (·.commandFailed i.name f)
  | .error (.exit code) => throw (.exit code)

def dispatch (call : Program σ → Act σ Reply) (line : String) : Act σ Unit := do
  match Command.Invocation.ofLine? line with
  | none => return
  | some i =>
    match (← get).registry.resolve? i.name with
    | none => modify (·.printHighlighted "Invalid command")
    | some e => runCommand call e i

/-- Handles a line that is neither empty nor an answer: it enters the history and is run. -/
def runLine (call : Program σ → Act σ Reply) (line : String) : Act σ Unit := do
  let _ ← remember line
  dispatch call line

/-- The end of the input is shown as a command to quit, and quits. -/
def endInput (s : Session σ) : Session σ :=
  (s.onEditor fun e => ((e.insertText "quit".toList).redisplay).newRow).quit

/-- Handles a completed line, or the end of the input. -/
def completeLine (call : Program σ → Act σ Reply) (line : Option String) : Act σ Unit := do
  match line with
  | none => modify endInput
  | some text =>
    if text = "" then return
    if ← release call text then return
    runLine call text

/-- Hands a completed line, or the end of the input, to its consumer. -/
def consume (call : Program σ → Act σ Reply) (line : Option String) : Act σ Unit := do
  match (← get).consumer with
  | .commands => completeLine call line
  | .program handler =>
    let _ ← call (handler line)

end LineShell.Session
