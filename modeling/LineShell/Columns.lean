import LineShell.Chunks
import LineShell.Text.Blank
import LineShell.Text.Numeral

/-!
Sorted items in left-aligned columns, as many to a row as the terminal's width has room for, and at
least one.
-/

namespace LineShell.Columns

/-- The number of items in a row of `width` characters, for columns `column` wide. -/
def perRow (width column : Int) : Nat :=
  (max 1 (width.fdiv column)).toNat

/-- One row: its items, each filled up to the column's width, without white space at the end. -/
def row (column : Nat) (items : List String) : String :=
  String.ofList
    (Text.dropRight Text.isBlank (items.flatMap fun item => (Text.padRight column item).toList))

/-- Lays items out in columns two wider than `longest`. There is no layout if that makes the columns
zero wide. -/
def layout? (items : List String) (longest width : Int) : Option (List String) :=
  let column := longest + 2
  if column = 0 then none
  else
    let ordered := items.mergeSort fun a b => decide (a ≤ b)
    some ((chunks (perRow width column) ordered).map (row column.toNat))

def longest (items : List String) : Nat :=
  items.foldl (fun n item => max n item.length) 0

/-- Lays items out in columns that hold the longest of them. -/
def layout (items : List String) (width : Int) : List String :=
  (layout? items (longest items) width).getD []

/-- The width of the terminal: the variable that gives it, if that is a positive number, or else
80. -/
def terminalWidth (env : List (String × String)) : Int :=
  match (env.lookup "COLUMNS").bind fun text => Text.integer? 10 text.toList with
  | some n => if n > 0 then n else 80
  | none => 80

def zeroWidthMessage : String := "integer division or modulo by zero"

end LineShell.Columns
