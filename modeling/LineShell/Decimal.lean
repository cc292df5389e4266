import LineShell.Text.Numeral

/-!
Numbers in decimal notation, read exactly, and the binary number of double precision that is nearest
to each.
-/

namespace LineShell

inductive Decimal where
  /-- The number `mantissa * 10 ^ exponent`. -/
  | finite (mantissa exponent : Int)
  | infinite (negative : Bool)
  | undefined
  deriving DecidableEq, Repr

namespace Decimal

def negate : Decimal → Decimal
  | finite mantissa exponent => finite (-mantissa) exponent
  | infinite negative => infinite (!negative)
  | undefined => undefined

/-- The nearest number of double precision to `m * 10 ^ e`. Far beyond the range of such numbers it
is found without working the power out. -/
def roundedSize (m : Nat) (e : Int) : Float :=
  if m = 0 then 0.0
  else if e > 400 then 1.0 / 0.0
  else if e < 0 ∧ m.log2 + 1100 < 3 * e.natAbs then 0.0
  else Float.ofScientific m (e < 0) e.natAbs

/-- The nearest binary number of double precision. -/
def toFloat : Decimal → Float
  | finite mantissa exponent =>
    let size := roundedSize mantissa.natAbs exponent
    if mantissa < 0 then -size else size
  | infinite negative => if negative then -(1.0 / 0.0) else 1.0 / 0.0
  | undefined => 0.0 / 0.0

/-- The number between zero and the least one of double precision above it is the power of two to
minus this. -/
def zeroExponent : Nat := 1075

/-- The nearest number of double precision is zero; a tie goes to zero. Far below the tie the power
of ten is not worked out. -/
def isZero : Decimal → Bool
  | finite mantissa exponent =>
    mantissa = 0 || (exponent < 0 &&
      (mantissa.natAbs.log2 + 1100 < 3 * exponent.natAbs ||
        mantissa.natAbs * Nat.pow 2 zeroExponent ≤ Nat.pow 10 exponent.natAbs))
  | _ => false

/-- The power of ten behind a mantissa: nothing, or the letter `e` and a whole number. -/
def exponent? : List Char → Option Int
  | [] => some 0
  | c :: s =>
    if c ≠ 'e' && c ≠ 'E' then none
    else
      let (negative, digits) := Text.sign s
      (Text.magnitude? 10 digits).map fun n => if negative then -n else n

/-- Digits, with at most one point among them, and a power of ten. -/
def size? (s : List Char) : Option Decimal :=
  let whole := s.takeWhile Text.isDecimal
  let (fraction, behind) := match s.dropWhile Text.isDecimal with
    | '.' :: rest => (rest.takeWhile Text.isDecimal, rest.dropWhile Text.isDecimal)
    | rest => ([], rest)
  if whole.isEmpty && fraction.isEmpty then none
  else do
    let mantissa ← Text.magnitude? 10 (whole ++ fraction)
    let exponent ← exponent? behind
    some (.finite mantissa (exponent - fraction.length))

/-- Reads a number: a sign, and digits with a point and a power of ten, or a word for what is no
number. -/
def ofText? (s : List Char) : Option Decimal :=
  let (negative, body) := Text.sign (Text.trim s)
  let size :=
    let word := String.ofList (body.map Char.toLower)
    if word = "inf" || word = "infinity" then some (infinite false)
    else if word = "nan" then some undefined
    else size? body
  if negative then size.map negate else size

end Decimal

end LineShell
