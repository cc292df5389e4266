import LineShell.Datum

/-!
Text templates. A percent sign opens a field: flags, a width, a precision, a length letter that
means nothing, and the letter of a conversion. The arguments are used up in order, and all of them
must be.
-/

namespace LineShell.Text.Template

/-- Why a template cannot be filled in. -/
inductive Fault where
  /-- The template ends inside a field. -/
  | incomplete
  | namedField
  /-- No conversion has this letter, which stands at `position`. -/
  | unknownConversion (letter : Char) (position : Nat)
  | tooFewArguments
  | tooManyArguments
  | starNeedsInteger
  | widthTooBig
  | precisionTooBig
  /-- A starred width does not fit a machine word. -/
  | starTooBig (target : String)
  /-- The argument of a decimal conversion is no number. -/
  | needsNumber (letter : Char) (kind : String)
  /-- The argument of a hexadecimal or octal conversion is no integer. -/
  | needsInteger (letter : Char) (kind : String)
  /-- The argument of a character conversion is neither a code point nor one character. -/
  | needsCharacter
  /-- The argument of a character conversion is beyond the last code point. -/
  | characterOutOfRange
  deriving DecidableEq, Repr

def Fault.message : Fault → String
  | incomplete => "incomplete format"
  | namedField => "format requires a mapping"
  | unknownConversion letter position =>
    let seen := if 31 ≤ letter.toNat && letter.toNat < 127 then letter else '?'
    let digits := (Nat.toDigits 16 letter.toNat)
    "unsupported format character '" ++ String.ofList [seen] ++ "' (0x" ++ String.ofList digits ++
      s!") at index {position}"
  | tooFewArguments => "not enough arguments for format string"
  | tooManyArguments => "not all arguments converted during string formatting"
  | starNeedsInteger => "* wants int"
  | widthTooBig => "width too big"
  | precisionTooBig => "precision too big"
  | starTooBig target => "Python int too large to convert to C " ++ target
  | needsNumber letter kind =>
    "%" ++ String.ofList [letter] ++ " format: a real number is required, not " ++ kind
  | needsInteger letter kind =>
    "%" ++ String.ofList [letter] ++ " format: an integer is required, not " ++ kind
  | needsCharacter => "%c requires int or char"
  | characterOutOfRange => "%c arg not in range(0x110000)"

/-- What the flags, the width and the precision of a field ask for. -/
structure Layout where
  left : Bool := false
  plus : Bool := false
  space : Bool := false
  alternate : Bool := false
  zero : Bool := false
  width : Option Nat := none
  precision : Option Nat := none
  deriving DecidableEq, Repr

/-- The rest of a template, with the position at which it stands, and the arguments not yet used. -/
structure Rest where
  position : Nat
  chars : List Char
  args : List Datum

/-- Reads one character of the template. -/
def Rest.next (r : Rest) : Except Fault (Char × Rest) :=
  match r.chars with
  | [] => .error .incomplete
  | c :: chars => .ok (c, { r with position := r.position + 1, chars })

def Rest.arg (r : Rest) : Except Fault (Datum × Rest) :=
  match r.args with
  | [] => .error .tooFewArguments
  | a :: args => .ok (a, { r with args })

/-- Takes the next argument as the integer that a star stands for. -/
def Rest.star (r : Rest) : Except Fault (Int × Rest) := do
  match ← r.arg with
  | (.int n, r) => .ok (n, r)
  | (.bool b, r) => .ok (if b then 1 else 0, r)
  | _ => .error .starNeedsInteger

/-- The largest signed machine word. -/
def wordMax : Nat := 0x7FFFFFFFFFFFFFFF

/-- The largest signed half word. -/
def halfMax : Nat := 0x7FFFFFFF

def flags (layout : Layout) : List Char → Layout × List Char
  | [] => (layout, [])
  | c :: rest =>
    if c = '-' then flags { layout with left := true } rest
    else if c = '+' then flags { layout with plus := true } rest
    else if c = ' ' then flags { layout with space := true } rest
    else if c = '#' then flags { layout with alternate := true } rest
    else if c = '0' then flags { layout with zero := true } rest
    else (layout, c :: rest)

def number (digits : List Char) : Nat :=
  digits.foldl (fun n c => n * 10 + (c.toNat - 48)) 0

def Rest.skip (r : Rest) (n : Nat) : Rest :=
  { r with position := r.position + n, chars := r.chars.drop n }

def Rest.width (r : Rest) (layout : Layout) : Except Fault (Layout × Rest) := do
  match r.chars with
  | '*' :: _ =>
    let (n, r) ← (r.skip 1).star
    if n.natAbs > wordMax + (if n < 0 then 1 else 0) then .error (.starTooBig "ssize_t")
    else if n < 0 then .ok ({ layout with left := true, width := some n.natAbs }, r)
    else .ok ({ layout with width := some n.natAbs }, r)
  | _ =>
    let digits := r.chars.takeWhile Char.isDigit
    if digits.isEmpty then .ok (layout, r)
    else if number digits > wordMax then .error .widthTooBig
    else .ok ({ layout with width := some (number digits) }, r.skip digits.length)

def Rest.precision (r : Rest) (layout : Layout) : Except Fault (Layout × Rest) := do
  match r.chars with
  | '.' :: '*' :: _ =>
    let (n, r) ← (r.skip 2).star
    if n.natAbs > halfMax + (if n < 0 then 1 else 0) then .error (.starTooBig "int")
    else .ok ({ layout with precision := some n.toNat }, r)
  | '.' :: digits =>
    let digits := digits.takeWhile Char.isDigit
    if number digits > halfMax then .error .precisionTooBig
    else .ok ({ layout with precision := some (number digits) }, r.skip (digits.length + 1))
  | _ => .ok (layout, r)

def Rest.lengthLetter (r : Rest) : Rest :=
  match r.chars with
  | c :: _ => if c = 'h' || c = 'l' || c = 'L' then r.skip 1 else r
  | [] => r

/-- A text fitted to the width of a field. -/
def fit (layout : Layout) (s : List Char) : List Char :=
  let gap := List.replicate (layout.width.getD 0 - s.length) ' '
  if layout.left then s ++ gap else gap ++ s

def textField (layout : Layout) (s : String) : List Char :=
  fit layout (match layout.precision with
    | some n => s.toList.take n
    | none => s.toList)

/-- The digits of an integer conversion, before the sign. -/
def digitsOf (letter : Char) (n : Nat) : List Char :=
  if letter = 'o' then Nat.toDigits 8 n
  else if letter = 'x' then Nat.toDigits 16 n
  else if letter = 'X' then (Nat.toDigits 16 n).map Char.toUpper
  else Nat.toDigits 10 n

/-- The marker of the base before the digits, if the field asks for it. -/
def marker (layout : Layout) (letter : Char) : List Char :=
  if layout.alternate && (letter = 'o' || letter = 'x' || letter = 'X') then ['0', letter] else []

/-- The field of an integer conversion. Zeros fill it up to the precision, and up to the width if a
flag says so; sign and marker come before them. -/
def integerField (layout : Layout) (letter : Char) (n : Int) : List Char :=
  let sign :=
    if n < 0 then ['-'] else if layout.plus then ['+'] else if layout.space then [' '] else []
  let digits := digitsOf letter n.natAbs
  let digits := List.replicate (layout.precision.getD 0 - digits.length) '0' ++ digits
  let head := sign ++ marker layout letter
  let wide := layout.width.getD 0 - head.length - digits.length
  if layout.zero && !layout.left then head ++ List.replicate wide '0' ++ digits
  else fit layout (head ++ digits)

/-- The integer of a numeric argument; a fraction is cut off. -/
def wholeOf : Datum → Option Int
  | .int n => some n
  | .bool b => some (if b then 1 else 0)
  | .decimal (.finite mantissa exponent) =>
    some (if exponent < 0 then mantissa.tdiv (Int.pow 10 exponent.natAbs)
      else mantissa * Int.pow 10 exponent.natAbs)
  | _ => none

/-- A shown value with its characters beyond ASCII escaped. -/
def inAscii (s : String) : String :=
  String.ofList (s.toList.flatMap fun c => if c.toNat < 128 then [c] else Text.codeEscape c)

def field (layout : Layout) (letter : Char) (arg : Datum) : Except Fault (List Char) :=
  if letter = 's' then .ok (textField layout arg.plain)
  else if letter = 'r' then .ok (textField layout arg.shown)
  else if letter = 'a' then .ok (textField layout (inAscii arg.shown))
  else if letter = 'd' || letter = 'i' || letter = 'u' then
    match wholeOf arg with
    | some n => .ok (integerField layout letter n)
    | none => .error (.needsNumber letter arg.kindName)
  else if letter = 'x' || letter = 'X' || letter = 'o' then
    match arg with
    | .int n => .ok (integerField layout letter n)
    | .bool b => .ok (integerField layout letter (if b then 1 else 0))
    | other => .error (.needsInteger letter other.kindName)
  else
    let code (n : Int) : Except Fault (List Char) :=
      if n < 0 ∨ n ≥ 0x110000 then .error .characterOutOfRange
      else .ok (fit layout [Char.ofNat n.natAbs])
    match arg with
    | .int n => code n
    | .bool b => code (if b then 1 else 0)
    | .text s => match s.toList with
      | [c] => .ok (fit layout [c])
      | _ => .error .needsCharacter
    | _ => .error .needsCharacter

def conversions : List Char := ['s', 'r', 'a', 'd', 'i', 'u', 'x', 'X', 'o', 'c']

/-- Fills in one field, the percent sign before it being read. -/
def Rest.field (r : Rest) : Except Fault (List Char × Rest) := do
  match r.chars with
  | '(' :: _ => .error .namedField
  | '%' :: _ => .ok (['%'], r.skip 1)
  | _ =>
    let (layout, after) := flags {} r.chars
    let r := r.skip (r.chars.length - after.length)
    let (layout, r) ← r.width layout
    let (layout, r) ← r.precision layout
    let (letter, r) ← r.lengthLetter.next
    let (arg, r) ← r.arg
    if conversions.contains letter then
      let text ← Template.field layout letter arg
      .ok (text, r)
    else .error (.unknownConversion letter (r.position - 1))

/-- Fills in the fields of a template, at most `fuel` steps of it. Every step reads a character. -/
def fillFrom (fuel : Nat) (r : Rest) : Except Fault (List Char) :=
  match fuel, r.chars with
  | 0, _ => if r.args.isEmpty then .ok [] else .error .tooManyArguments
  | _ + 1, [] => if r.args.isEmpty then .ok [] else .error .tooManyArguments
  | fuel + 1, c :: _ => do
    let r := r.skip 1
    if c = '%' then
      let (text, r) ← r.field
      let rest ← fillFrom fuel r
      .ok (text ++ rest)
    else
      let rest ← fillFrom fuel r
      .ok (c :: rest)

def fill (template : String) (args : List Datum) : Except Fault String := do
  let chars := template.toList
  let text ← fillFrom (chars.length + 1) ⟨0, chars, args⟩
  .ok (String.ofList text)

/-- A text stands for itself where a field asks for no more than a text. -/
theorem field_text (n : Nat) (a : String) (rest : List Char) (args : List Datum) :
    Rest.field ⟨n, 's' :: rest, .text a :: args⟩ = .ok (a.toList, ⟨n + 1, rest, args⟩) := by
  have fitted : Template.field {} 's' (.text a) = .ok a.toList := by
    simp [Template.field, textField, fit, Datum.plain]
  simp [Rest.field, Rest.skip, flags, Rest.width, Rest.precision, Rest.lengthLetter, Rest.next,
    Rest.arg, conversions, fitted, bind, Except.bind]

end LineShell.Text.Template
