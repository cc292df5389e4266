import LineShell.Yaml.Cursor
import LineShell.Text.Numeral

/-!
The forms of plain scalars, which decide on their types: truth values, numbers, points in time, and
the marks for nothing, for merging and for the default value.
-/

namespace LineShell.Yaml

inductive Form where
  | text
  | bool
  | int
  | float
  | null
  | moment
  /-- The key `<<`, whose value is merged into the mapping. -/
  | merge
  /-- The key `=`, which stands for the value itself. -/
  | default
  | reserved
  deriving DecidableEq, Repr

namespace Form

/-- The words for truth values, in lower case. -/
def boolWords : List (String × Bool) :=
  [("yes", true), ("no", false), ("true", true), ("false", false), ("on", true), ("off", false)]

/-- A word, written in lower case, in upper case or with a capital. -/
def spellings (word : String) : List String := [word, word.capitalize, word.toUpper]

/-- A decimal digit of ASCII or an underscore. -/
def isFigureOrGap (c : Char) : Bool := c.isDigit || c = '_'

def unsigned (s : List Char) : List Char := (Text.sign s).2

/-- A digit, and further digits and underscores: what is behind them. -/
def afterDigits? : List Char → Option (List Char)
  | c :: rest => if c.isDigit then some (rest.dropWhile isFigureOrGap) else none
  | [] => none

/-- Nothing, or a power of ten whose sign is written. -/
def isExponent : List Char → Bool
  | [] => true
  | e :: s :: digits =>
    (e = 'e' || e = 'E') && (s = '+' || s = '-') && !digits.isEmpty && digits.all Char.isDigit
  | _ => false

/-- A number from 0 to 59 of one or two digits. -/
def isSixtieth : List Char → Bool
  | [d] => d.isDigit
  | [t, d] => '0' ≤ t && t ≤ '5' && d.isDigit
  | _ => false

/-- Pieces between colons: the first a number, the others below sixty, and at least one of them. -/
def isSixties (s : List Char) : Bool :=
  match Text.pieces ':' s with
  | first :: second :: rest => afterDigits? first = some [] && (second :: rest).all isSixtieth
  | _ => false

def isFloat (s : List Char) : Bool :=
  let body := unsigned s
  (match afterDigits? body with
    | some ('.' :: rest) => isExponent (rest.dropWhile isFigureOrGap)
    | _ => false) ||
  (match s with
    | '.' :: rest => (afterDigits? rest).any isExponent
    | _ => false) ||
  (match body.dropWhile (· ≠ '.') with
    | '.' :: rest => isSixties (body.takeWhile (· ≠ '.')) && rest.all isFigureOrGap
    | _ => false) ||
  [".inf", ".Inf", ".INF"].contains (String.ofList body) ||
  [".nan", ".NaN", ".NAN"].contains (String.ofList s)

/-- At least one character, all of them satisfying `p` or underscores. -/
def isRun (p : Char → Bool) (s : List Char) : Bool :=
  !s.isEmpty && s.all fun c => p c || c = '_'

/-- A whole number: binary, octal, decimal, hexadecimal, or in sixties. -/
def isInt (s : List Char) : Bool :=
  match unsigned s with
  | ['0'] => true
  | '0' :: 'b' :: digits => isRun (fun c => c = '0' || c = '1') digits
  | '0' :: 'x' :: digits =>
    isRun (fun c => (c.isDigit || ('a' ≤ c && c ≤ 'f') || ('A' ≤ c && c ≤ 'F'))) digits
  | '0' :: digits => isRun (fun c => '0' ≤ c && c ≤ '7') digits
  | body => body.head?.any Char.isDigit && (body.all isFigureOrGap || isSixties body)

structure Moment where
  year : Nat
  month : Nat
  day : Nat
  time : Option (Nat × Nat × Nat) := none
  /-- The distance to universal time, in hours and minutes. -/
  zone : Option (Nat × Nat) := none

def number (digits : List Char) : Nat :=
  digits.foldl (fun n d => n * 10 + (d.toNat - 48)) 0

/-- Takes from `least` to `most` digits off. -/
def digits? (least most : Nat) (s : List Char) : Option (Nat × List Char) :=
  let found := (s.take most).takeWhile Char.isDigit
  if found.length < least then none else some (number found, s.drop found.length)

def after? (c : Char) : List Char → Option (List Char)
  | d :: rest => if c = d then some rest else none
  | [] => none

/-- Takes the gap between date and time off: one letter, or blanks. -/
def afterGap? : List Char → Option (List Char)
  | 'T' :: rest | 't' :: rest => some rest
  | c :: rest =>
    if c = ' ' || c = '\t' then some (rest.dropWhile fun c => c = ' ' || c = '\t') else none
  | [] => none

/-- The time zone at the end of a point in time. -/
def zone? (s : List Char) : Option (Option (Nat × Nat)) :=
  match s, s.dropWhile fun c => c = ' ' || c = '\t' with
  | [], _ => some none
  | _, ['Z'] => some none
  | _, c :: rest => do
    if c ≠ '+' && c ≠ '-' then none
    let (hours, s) ← digits? 1 2 rest
    if s.isEmpty then return some (hours, 0)
    let (minutes, s) ← digits? 2 2 (← after? ':' s)
    if s.isEmpty then return some (hours, minutes) else none
  | _, [] => none

/-- A text without the line feed at its end, on which no form depends. -/
def trimmed (s : List Char) : List Char :=
  if s.getLast? = some '\n' then s.dropLast else s

/-- Reads a point in time: a date, and maybe a time of day with a fraction and a time zone. -/
def moment? (s : List Char) : Option Moment := do
  let (year, s) ← digits? 4 4 (trimmed s)
  let (month, s) ← digits? 1 2 (← after? '-' s)
  let (day, s) ← digits? 1 2 (← after? '-' s)
  if s.isEmpty then return { year, month, day }
  let (hour, s) ← digits? 1 2 (← afterGap? s)
  let (minute, s) ← digits? 2 2 (← after? ':' s)
  let (second, s) ← digits? 2 2 (← after? ':' s)
  let s := match s with
    | '.' :: rest => rest.dropWhile Char.isDigit
    | s => s
  let zone ← zone? s
  return { year, month, day, time := some (hour, minute, second), zone }

/-- A point in time; a date without a time of day has two digits for month and day. -/
def isMoment (s : List Char) : Bool :=
  match moment? s with
  | some m => m.time.isSome || (trimmed s).length = 10
  | none => false

def ofText (text : String) : Form :=
  let s := trimmed text.toList
  let word := String.ofList s
  if boolWords.any fun entry => (spellings entry.1).contains word then .bool
  else if isFloat s then .float
  else if isInt s then .int
  else if word = "<<" then .merge
  else if text = "" || word = "~" || (spellings "null").contains word then .null
  else if isMoment s then .moment
  else if word = "=" then .default
  else if word = "!" || word = "&" || word = "*" then .reserved
  else .text

end Form

/-- Why the parts of a point in time name none. -/
def Form.Moment.fault? (m : Moment) : Option String :=
  let leap := m.year % 4 = 0 ∧ (m.year % 100 ≠ 0 ∨ m.year % 400 = 0)
  let length :=
    if m.month = 2 then (if leap then 29 else 28)
    else if [4, 6, 9, 11].contains m.month then 30 else 31
  let (hour, minute, second) := m.time.getD (0, 0, 0)
  if let some (hours, minutes) := m.zone then
    if hours * 60 + minutes ≥ 24 * 60 then
      let minutes := hours * 60 + minutes
      let rest := minutes % (24 * 60) * 60
      some ("offset must be a timedelta strictly between -timedelta(hours=24) and " ++
        s!"timedelta(hours=24), not datetime.timedelta(days={minutes / (24 * 60)}" ++
        (if rest = 0 then ")" else s!", seconds={rest})"))
    else dateFault m length hour minute second
  else dateFault m length hour minute second
where
  /-- Why the parts of a date and a time of day name none, `length` being that of the month. -/
  dateFault (m : Form.Moment) (length hour minute second : Nat) : Option String :=
    if m.year = 0 then some "year 0 is out of range"
    else if m.month = 0 ∨ m.month > 12 then some "month must be in 1..12"
    else if m.day = 0 ∨ m.day > length then some "day is out of range for month"
    else if hour > 23 then some "hour must be in 0..23"
    else if minute > 59 then some "minute must be in 0..59"
    else if second > 59 then some "second must be in 0..59"
    else none

end LineShell.Yaml
