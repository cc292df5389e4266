import LineShell.Text.Blank
import LineShell.Text.Digit
import LineShell.Text.Lines

/-!
Whole numbers in a given base. Digits of every script count in the bases up to ten; underscores may
stand between digits, one at a time.
-/

namespace LineShell.Text

def decimalValue? (c : Char) : Option Nat :=
  (decimalRanges.find? fun (low, high) => low ≤ c.toNat && c.toNat ≤ high).map
    fun (low, _) => (c.toNat - low) % 10

/-- The value of a digit, letters standing for those from ten on. -/
def digitValue? (c : Char) : Option Nat :=
  let letter := c.toLower
  if 'a' ≤ letter ∧ letter ≤ 'z' then some (letter.toNat - 87) else decimalValue? c

def digitIn? (base : Nat) (c : Char) : Option Nat :=
  (digitValue? c).filter (· < base)

/-- The number that digits write, with single underscores between them. -/
def magnitude? (base : Nat) (s : List Char) : Option Nat :=
  let groups := pieces '_' s
  if groups.any List.isEmpty then none
  else groups.flatten.foldlM (fun n c => (digitIn? base c).map (n * base + ·)) 0

/-- Takes a sign off: whether it was a minus, and the rest. -/
def sign : List Char → Bool × List Char
  | '-' :: rest => (true, rest)
  | '+' :: rest => (false, rest)
  | s => (false, s)

/-- The letter that marks a base, behind a zero. -/
def baseLetter? (base : Nat) : Option Char :=
  match base with
  | 2 => some 'b'
  | 8 => some 'o'
  | 16 => some 'x'
  | _ => none

/-- Takes the mark of a base off, with an underscore behind it. -/
def dropBaseMark (base : Nat) : List Char → List Char
  | '0' :: c :: rest =>
    if baseLetter? base = some c.toLower then
      match rest with
      | '_' :: digits => digits
      | digits => digits
    else '0' :: c :: rest
  | s => s

/-- Reads a whole number: white space around it, a sign, and digits behind the mark of the base. -/
def integer? (base : Nat) (s : List Char) : Option Int :=
  let (negative, body) := sign (trim s)
  (magnitude? base (dropBaseMark base body)).map fun n => if negative then -n else n

end LineShell.Text
