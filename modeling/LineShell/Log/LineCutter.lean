import LineShell.Text.Lines

/-!
Cutting written text into lines. Text may be written in any pieces; every non-empty line is handed
on once, when its line feed has been written or when the writer is flushed.
-/

namespace LineShell.Log

/-- A writer that keeps what has been written of the present line. -/
structure LineCutter where
  pending : List Char := []
  deriving DecidableEq, Repr

namespace LineCutter

/-- Writes a text: the lines that it completes, without the empty ones. -/
def write (w : LineCutter) (s : List Char) : List (List Char) × LineCutter :=
  let parts := Text.pieces '\n' (w.pending ++ s)
  (parts.dropLast.filter (!·.isEmpty), ⟨parts.getLastD []⟩)

def flush (w : LineCutter) : List (List Char) × LineCutter :=
  (if w.pending.isEmpty then [] else [w.pending], {})

end LineCutter

/-! ### Sinks that fail -/

/-- What lines are handed on to. It may fail at a line, for what it has been called with before. -/
abbrev Sink (ε : Type) := (called : List (List Char)) → (line : List Char) → Option ε

namespace LineCutter

variable {ε : Type} (sink : Sink ε)

/-- Hands lines on one by one until the sink fails: the failure, what the sink has been called with,
and the lines that are left. -/
def handOn (called : List (List Char)) :
    List (List Char) → Option ε × List (List Char) × List (List Char)
  | [] => (none, called, [])
  | line :: rest =>
    if line.isEmpty then handOn called rest
    else match sink called line with
      | none => handOn (called ++ [line]) rest
      | some failure => (some failure, called ++ [line], rest)

/-- Writes a text. The line that the sink fails at is gone, and those behind it are kept. -/
def writeTo (called : List (List Char)) (w : LineCutter) (s : List Char) :
    Option ε × List (List Char) × LineCutter :=
  let parts := Text.pieces '\n' (w.pending ++ s)
  let (failure, called, rest) := handOn sink called parts.dropLast
  (failure, called, ⟨['\n'].intercalate (rest ++ [parts.getLastD []])⟩)

/-- Flushes. What the sink fails at is kept. -/
def flushTo (called : List (List Char)) (w : LineCutter) :
    Option ε × List (List Char) × LineCutter :=
  if w.pending.isEmpty then (none, called, w)
  else
    let failure := sink called w.pending
    (failure, called ++ [w.pending], if failure.isNone then {} else w)

end LineCutter

/-- The lines that a message makes when it is written with a line feed behind it. -/
def linesOf (message : String) : List String :=
  ((LineCutter.write {} (message.toList ++ ['\n'])).1).map String.ofList

end LineShell.Log
