import LineShell.Datum
import LineShell.Text.Lines

/-!
Reading JSON texts. Of several entries of an object with one key the last one counts. The words for
infinities and for what is no number are accepted.
-/

namespace LineShell.Json

def isSpace (c : Char) : Bool :=
  c = ' ' || c = '\t' || c = '\n' || c = '\r'

def skipSpaces (s : List Char) : List Char := s.dropWhile isSpace

def hexDigitValue? (c : Char) : Option Nat :=
  if c.toNat < 128 then Text.digitIn? 16 c else none

def codeUnit? (s : List Char) : Option (Nat × List Char) :=
  if s.length < 4 then none
  else ((s.take 4).foldlM (fun n c => (hexDigitValue? c).map (n * 16 + ·)) 0).map (·, s.drop 4)

/-- Reads the code point that the digits of an escape stand for; two escapes make one code point
where the first is the upper half of a pair. -/
def codePoint? (s : List Char) : Option (Char × List Char) := do
  let (unit, s) ← codeUnit? s
  let pair := do
    if unit < 0xD800 ∨ unit > 0xDBFF then none
    match s with
    | '\\' :: 'u' :: s =>
      let (lower, s) ← codeUnit? s
      if lower < 0xDC00 ∨ lower > 0xDFFF then none
      some (Char.ofNat (0x10000 + (unit - 0xD800) * 0x400 + (lower - 0xDC00)), s)
    | _ => none
  some (pair.getD (Char.ofNat unit, s))

def escapeLetter? (c : Char) : Option Char :=
  match c with
  | '"' | '\\' | '/' => some c
  | 'b' => some '\x08'
  | 'f' => some '\x0c'
  | 'n' => some '\n'
  | 'r' => some '\r'
  | 't' => some '\t'
  | _ => none

/-- Reads a string behind its opening quote. Every round reads a character, so `fuel` need not
exceed the length. -/
def stringBody? : (fuel : Nat) → List Char → Option (List Char × List Char)
  | 0, _ => none
  | _ + 1, [] => none
  | fuel + 1, c :: s =>
    if c = '"' then some ([], s)
    else if c = '\\' then
      match s with
      | 'u' :: s => do
        let (ch, s) ← codePoint? s
        let (more, s) ← stringBody? fuel s
        some (ch :: more, s)
      | e :: s => do
        let ch ← escapeLetter? e
        let (more, s) ← stringBody? fuel s
        some (ch :: more, s)
      | [] => none
    else if c.toNat < 0x20 then none
    else do
      let (more, s) ← stringBody? fuel s
      some (c :: more, s)

def digits (s : List Char) : List Char × List Char :=
  (s.takeWhile Char.isDigit, s.dropWhile Char.isDigit)

/-- The digits behind a point, if a point with digits stands here. -/
def fraction (s : List Char) : List Char × List Char :=
  match s with
  | '.' :: rest => if (digits rest).1.isEmpty then ([], s) else digits rest
  | _ => ([], s)

/-- The power of ten, if one stands here: its text and the rest. -/
def power (s : List Char) : List Char × List Char :=
  match s with
  | e :: rest =>
    if e ≠ 'e' && e ≠ 'E' then ([], s)
    else
      let signLength := if rest.head? = some '+' || rest.head? = some '-' then 1 else 0
      let (found, behind) := digits (rest.drop signLength)
      if found.isEmpty then ([], s) else (e :: rest.take signLength ++ found, behind)
  | [] => ([], s)

/-- The most digits that a whole number may have. -/
def digitLimit : Nat := 4300

/-- Reads a number. A zero at the start stands alone. -/
def number? (s : List Char) : Option (Datum × List Char) := do
  let negative := s.head? = some '-'
  let body := if negative then s.tail else s
  let whole := if body.head? = some '0' then ['0'] else (digits body).1
  if whole.isEmpty then none
  let (places, behind) := fraction (body.drop whole.length)
  let (exponent, rest) := power behind
  if places.isEmpty && exponent.isEmpty then
    if whole.length > digitLimit then none
    let n ← Text.magnitude? 10 whole
    some (.int (if negative then -n else n), rest)
  else
    let size ← Decimal.size? (whole ++ '.' :: places ++ exponent)
    some (.decimal (if negative then size.negate else size), rest)

def words : List (List Char × Datum) :=
  [("null".toList, .null), ("true".toList, .bool true), ("false".toList, .bool false),
    ("NaN".toList, .decimal .undefined), ("Infinity".toList, .decimal (.infinite false)),
    ("-Infinity".toList, .decimal (.infinite true))]

/-- Puts an entry into an object; a key that is there keeps its place and gets the new value. -/
def putEntry (entries : List (String × Datum)) (entry : String × Datum) : List (String × Datum) :=
  if entries.any fun e => e.1 = entry.1 then
    entries.map fun e => if e.1 = entry.1 then entry else e
  else entries ++ [entry]

mutual

def value? : (fuel : Nat) → List Char → Option (Datum × List Char)
  | 0, _ => none
  | fuel + 1, s =>
    match s with
    | '"' :: rest =>
      (stringBody? s.length rest).map fun (text, rest) => (.text (String.ofList text), rest)
    | '[' :: rest =>
      match skipSpaces rest with
      | ']' :: rest => some (.list [], rest)
      | rest => (items? fuel rest).map fun (items, rest) => (.list items, rest)
    | '{' :: rest =>
      match skipSpaces rest with
      | '}' :: rest => some (.map [], rest)
      | rest => (entries? fuel rest).map fun (entries, rest) =>
        (.map ((entries.foldl putEntry []).map fun e => (.text e.1, e.2)), rest)
    | s =>
      match words.find? fun entry => entry.1.isPrefixOf s with
      | some (word, d) => some (d, s.drop word.length)
      | none => number? s

/-- Reads the values of an array and the bracket that ends it. -/
def items? : (fuel : Nat) → List Char → Option (List Datum × List Char)
  | 0, _ => none
  | fuel + 1, s => do
    let (item, s) ← value? fuel s
    match skipSpaces s with
    | ',' :: s =>
      let (more, s) ← items? fuel (skipSpaces s)
      some (item :: more, s)
    | ']' :: s => some ([item], s)
    | _ => none

/-- Reads the entries of an object and the brace that ends it. -/
def entries? : (fuel : Nat) → List Char → Option (List (String × Datum) × List Char)
  | 0, _ => none
  | fuel + 1, s => do
    let (key, s) ← match s with
      | '"' :: rest => stringBody? s.length rest
      | _ => none
    let s ← match skipSpaces s with
      | ':' :: s => some (skipSpaces s)
      | _ => none
    let (value, s) ← value? fuel s
    match skipSpaces s with
    | ',' :: s =>
      let (more, s) ← entries? fuel (skipSpaces s)
      some ((String.ofList key, value) :: more, s)
    | '}' :: s => some ([(String.ofList key, value)], s)
    | _ => none

end

/-- The value that a JSON text holds; none if the text is not well formed. -/
def read? (text : String) : Option Datum :=
  let s := skipSpaces text.toList
  match value? (2 * s.length + 2) s with
  | some (d, rest) => if (skipSpaces rest).isEmpty then some d else none
  | none => none

end LineShell.Json
