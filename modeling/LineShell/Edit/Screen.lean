import LineShell.Edit.Line
import LineShell.Columns

/-!
What is written to the terminal. Every write is kept as what it is, and its characters are a
function of that, so that the rows of the edit line and the text of commands can be told apart.
-/

namespace LineShell.Edit

/-- Puts the cursor at the start of the row and empties the row. -/
def clearRow : String := "\r\x1b[K"

/-- What an editor is about when it writes. -/
inductive Phase where
  | editing
  /-- A completed line is being handled. -/
  | handling
  /-- Keys are not accepted. -/
  | removed
  deriving DecidableEq, Repr

inductive Write where
  /-- Text that is not part of the edit line. -/
  | output (text : String) (phase : Phase)
  | clear
  | newRow
  /-- The edit line is drawn, the cursor left at the point; `fresh` says that a new row is begun
  for it. -/
  | redraw (fresh : Bool) (prompt : String) (line : Line) (phase : Phase)
  /-- Completions are listed, below the edit line. -/
  | listing (rows : List String)
  deriving DecidableEq, Repr

/-- The edit line as it is drawn on an empty row. -/
def drawn (prompt : String) (line : Line) : String :=
  prompt ++ line.toString ++ (if line.back = 0 then "" else "\x1b[" ++ toString line.back ++ "D")

def Write.text : Write → String
  | output text _ => text
  | clear => clearRow
  | newRow => "\n"
  | redraw fresh prompt line _ => (if fresh then "\n" else "") ++ clearRow ++ drawn prompt line
  | listing rows => "\n" ++ "\n".intercalate rows ++ "\n"

/-- The characters of writes that are listed newest first. -/
def textOf (writes : List Write) : String :=
  String.join (writes.reverse.map Write.text)

@[simp] theorem textOf_nil : textOf [] = "" := rfl

@[simp] theorem textOf_cons (w : Write) (ws : List Write) :
    textOf (w :: ws) = textOf ws ++ w.text := by
  simp [textOf]

end LineShell.Edit
