import LineShell.Datum

/-!
Writing values as JSON in ASCII: a blank follows each comma and colon, and characters beyond ASCII
are escaped by their UTF-16 units.
-/

namespace LineShell.Json

def unit (n : Nat) : List Char :=
  '\\' :: 'u' :: Text.hexDigits 4 n

/-- The written form of one character inside a string. -/
def escaped (c : Char) : List Char :=
  if c = '"' || c = '\\' then ['\\', c]
  else if c = '\n' then ['\\', 'n']
  else if c = '\r' then ['\\', 'r']
  else if c = '\t' then ['\\', 't']
  else if c = '\x08' then ['\\', 'b']
  else if c = '\x0c' then ['\\', 'f']
  else if 32 ≤ c.toNat && c.toNat < 127 then [c]
  else if c.toNat < 0x10000 then unit c.toNat
  else
    let n := c.toNat - 0x10000
    unit (0xD800 + n / 0x400) ++ unit (0xDC00 + n % 0x400)

def string (s : String) : String :=
  String.ofList ('"' :: s.toList.flatMap escaped ++ ['"'])

mutual

/-- The JSON text of a value. What JSON has no form for is written as a string. -/
def write : Datum → String
  | .null => "null"
  | .bool true => "true"
  | .bool false => "false"
  | .int value => toString value
  | .decimal value => toString value.toFloat
  | .text value => string value
  | .list items => "[" ++ writeItems items ++ "]"
  | .map entries => "\x7b" ++ writeEntries entries ++ "\x7d"
  | other => string other.shown

def writeItems : List Datum → String
  | [] => ""
  | [item] => write item
  | item :: next :: rest => write item ++ ", " ++ writeItems (next :: rest)

def writeEntries : List (Datum × Datum) → String
  | [] => ""
  | [(key, value)] => string key.plain ++ ": " ++ write value
  | (key, value) :: next :: rest =>
    string key.plain ++ ": " ++ write value ++ ", " ++ writeEntries (next :: rest)

end

end LineShell.Json
