import LineShell.Decimal
import LineShell.Text.Quoted

/-!
Dynamic values: what a settings file or an environment variable holds, what is handed to a text
template, what a log line carries, and what a request for input keeps for its answer.
-/

namespace LineShell

inductive Datum where
  | null
  | bool (value : Bool)
  | int (value : Int)
  | decimal (value : Decimal)
  | text (value : String)
  | bytes (value : List UInt8)
  /-- A date or a point in time. -/
  | moment (value : String)
  | list (items : List Datum)
  | map (entries : List (Datum × Datum))
  /-- A collection of distinct values. -/
  | set (items : List Datum)
  deriving Repr, Inhabited

namespace Datum

/-- The word for the kind of a value in reports. -/
def kindName : Datum → String
  | null => "NoneType"
  | bool _ => "bool"
  | int _ => "int"
  | decimal _ => "float"
  | text _ => "str"
  | bytes _ => "bytes"
  | moment _ => "datetime.date"
  | list _ => "list"
  | map _ => "dict"
  | set _ => "set"

mutual

/-- The form of a value inside another one: texts are quoted. -/
def shown : Datum → String
  | null => "None"
  | bool true => "True"
  | bool false => "False"
  | int value => toString value
  | decimal value => toString value.toFloat
  | text value => Text.quoted value
  | bytes value => Text.quoted (String.ofList (value.map fun b => Char.ofNat b.toNat))
  | moment value => value
  | list items => "[" ++ shownItems items ++ "]"
  | map entries => "\x7b" ++ shownEntries entries ++ "\x7d"
  | set items => "\x7b" ++ shownItems items ++ "\x7d"

def shownItems : List Datum → String
  | [] => ""
  | [item] => item.shown
  | item :: next :: rest => item.shown ++ ", " ++ shownItems (next :: rest)

def shownEntries : List (Datum × Datum) → String
  | [] => ""
  | [(key, value)] => key.shown ++ ": " ++ value.shown
  | (key, value) :: next :: rest =>
    key.shown ++ ": " ++ value.shown ++ ", " ++ shownEntries (next :: rest)

end

/-- The form of a value in running text: a text stands for itself. -/
def plain : Datum → String
  | text value => value
  | other => other.shown

end Datum

end LineShell
