import LineShell.Command.Entry
import LineShell.Failure
import LineShell.Signals

/-!
Programs: the code of those who use a shell, such as the handlers of commands. A program is a tree
of operations on the shell, each followed by what is to be done with the reply. Between operations
it may consult and change a state of its own, of type `σ`, which all programs of a shell share.
-/

namespace LineShell

/-- The operations on a shell that take plain values. -/
inductive Operation where
  | feed (text : String)
  | install (prompt : String)
  | remove
  /-- Changes the editor's prompt. -/
  | editorPrompt (prompt : String)
  | savePrompt
  | restorePrompt
  | message (text : String)
  | clearMessage
  | write (text : String)
  | redisplay
  | newRow
  | replaceLine (text : String)
  | insertText (text : String)
  | movePoint (position : Int)
  | addHistory (line : String)
  /-- Handles a completed line, or the end of the input. -/
  | line (text : Option String)
  | dispatch (line : String)
  /-- Fills a template in and prints it above the edit line. Without arguments the template is
  printed as it is. -/
  | print (template : String) (args : List Datum)
  | dump (bytes : List UInt8)
  | printMenu
  | quit
  | hangUp
  /-- Changes the shell's prompt, once it has been started. -/
  | setPrompt (prompt : String)
  | release (text : String)
  | start (argv : List String)
  | attach (descriptor : Nat)
  | detach
  | signal (s : Signal)
  /-- Code beside the shell logs an event. -/
  | log (event : Log.Event)
  | tearDown
  deriving Repr

inductive Reply where
  | nothing
  | flag (value : Bool)
  /-- A completion, or that there is none. -/
  | candidate (text : Option String)
  | args (words : List String)
  deriving DecidableEq, Repr, Inhabited

inductive Program (σ : Type) where
  | done (reply : Reply)
  | fail (cause : Interrupt)
  | consult (next : σ → Program σ)
  | note (change : σ → σ) (next : Program σ)
  /-- Consults the settings, and whether colours are in use. -/
  | inspect (next : Settings → Bool → Program σ)
  | perform (op : Operation) (next : Reply → Program σ)
  /-- Asks for the next line, which goes to the callback along with some data. -/
  | request (label message : String) (callback : Option (String → Datum → Program σ)) (data : Datum)
      (next : Program σ)
  | setMenu (menu : Option (List (Command.Entry (Program σ)))) (next : Bool → Program σ)
  /-- Runs a part with the edit line blanked. -/
  | suspended (body next : Program σ)
  /-- Runs a part and goes on even if it is given up. -/
  | attempt (body : Program σ) (next : Except Interrupt Reply → Program σ)

namespace Program

variable {σ : Type}

def skip : Program σ := done .nothing

instance : Inhabited (Program σ) := ⟨skip⟩

def single (op : Operation) : Program σ := perform op done

def sequence : List Operation → Program σ
  | [] => skip
  | op :: rest => perform op fun _ => sequence rest

def andThen : Program σ → Program σ → Program σ
  | done _, q => q
  | fail cause, _ => fail cause
  | consult next, q => consult fun s => (next s).andThen q
  | note change next, q => note change (next.andThen q)
  | inspect next, q => inspect fun settings colours => (next settings colours).andThen q
  | perform op next, q => perform op fun reply => (next reply).andThen q
  | request label message callback data next, q =>
    request label message callback data (next.andThen q)
  | setMenu menu next, q => setMenu menu fun b => (next b).andThen q
  | suspended body next, q => suspended body (next.andThen q)
  | attempt body next, q => attempt body fun r => (next r).andThen q

end Program

end LineShell
