/-!
UTF-8. Encoding goes by the size of the code point. Decoding goes byte by byte; what a byte leaves
open is a state, so a text may arrive in any number of pieces. The lenient reading never fails: each
maximal part of an ill-formed sequence becomes one replacement character. The strict reading stops
there and says what is wrong.
-/

namespace LineShell.Text.Utf8

/-- The replacement character U+FFFD. -/
def replacement : Char := '\uFFFD'

def encodeChar (c : Char) : List UInt8 :=
  let n := c.toNat
  let tail (bits : Nat) : UInt8 := UInt8.ofNat (0x80 + bits % 64)
  if n < 0x80 then [UInt8.ofNat n]
  else if n < 0x800 then [UInt8.ofNat (0xC0 + n / 64), tail n]
  else if n < 0x10000 then [UInt8.ofNat (0xE0 + n / 0x1000), tail (n / 64), tail n]
  else [UInt8.ofNat (0xF0 + n / 0x40000), tail (n / 0x1000), tail (n / 64), tail n]

def encode (s : List Char) : List UInt8 :=
  s.flatMap encodeChar

theorem encode_append (s t : List Char) : encode (s ++ t) = encode s ++ encode t := by
  simp [encode]

/-- Where the decoder stands between two bytes. -/
inductive State where
  | start
  /-- Inside a character whose bits so far are `bits`, after `seen` of its bytes; `owed` more
  follow, the next one from `low` to `high`. -/
  | inside (bits seen owed low high : Nat)
  /-- After two bytes that could only begin a surrogate, which no further byte completes. -/
  | surrogate
  deriving DecidableEq, Repr

/-- What a byte at a character boundary settles and opens; `none` if it can begin no character. -/
def lead (b : Nat) : Option (List Char × State) :=
  if b < 0x80 then some ([Char.ofNat b], .start)
  else if b < 0xC2 then none
  else if b < 0xE0 then some ([], .inside (b - 0xC0) 1 1 0x80 0xBF)
  else if b < 0xF0 then
    some ([], .inside (b - 0xE0) 1 2
      (if b = 0xE0 then 0xA0 else 0x80) (if b = 0xED then 0x9F else 0xBF))
  else if b < 0xF5 then
    some ([], .inside (b - 0xF0) 1 3
      (if b = 0xF0 then 0x90 else 0x80) (if b = 0xF4 then 0x8F else 0xBF))
  else none

/-- Reads one byte if it may follow. -/
def State.accept (s : State) (b : Nat) : Option (List Char × State) :=
  match s with
  | .start => lead b
  | .surrogate => none
  | .inside bits seen owed low high =>
    if low ≤ b ∧ b ≤ high then
      let bits := bits * 64 + (b - 0x80)
      if owed = 1 then some ([Char.ofNat bits], .start)
      else some ([], .inside bits (seen + 1) (owed - 1) 0x80 0xBF)
    else if bits = 0xD ∧ seen = 1 ∧ owed = 2 ∧ 0xA0 ≤ b ∧ b ≤ 0xBF then some ([], .surrogate)
    else none

/-- What giving up an open character leaves in the text. -/
def State.abandon : State → List Char
  | .start => []
  | .inside .. => [replacement]
  | .surrogate => [replacement, replacement]

/-- Reads one byte: the characters that it settles, and what it leaves open. A byte that may not
follow gives up the open character and is read afresh. -/
def State.step (s : State) (byte : UInt8) : List Char × State :=
  match s.accept byte.toNat with
  | some next => next
  | none =>
    let (out, next) := (lead byte.toNat).getD ([replacement], .start)
    (s.abandon ++ out, next)

def State.run (s : State) : List UInt8 → List Char × State
  | [] => ([], s)
  | b :: rest =>
    let (now, next) := s.step b
    let (later, last) := next.run rest
    (now ++ later, last)

/-- Bytes may be read in any number of pieces. -/
theorem State.run_append (s : State) (a b : List UInt8) :
    s.run (a ++ b) = ((s.run a).1 ++ ((s.run a).2.run b).1, ((s.run a).2.run b).2) := by
  induction a generalizing s with
  | nil => simp [State.run]
  | cons x a ih => simp [State.run, ih]

/-- The text of a complete byte sequence. -/
def decode (bytes : List UInt8) : List Char :=
  let (out, last) := State.start.run bytes
  out ++ last.abandon

/-- Why bytes are no UTF-8. -/
inductive Fault where
  /-- The byte at `position` can begin no character. -/
  | badStart (byte position : Nat)
  /-- `count` bytes from `position`, the first of them `byte`, are followed by one that cannot
  continue them. -/
  | badContinuation (byte position count : Nat)
  /-- The input ends after `count` bytes of a character that begins with `byte`. -/
  | unfinished (byte count : Nat)
  deriving DecidableEq, Repr

/-- Reads bytes strictly, `position` being the offset of the next one and `first` the byte that
opened the present character. A fault at the end of the input is placed in what is still open. -/
def readStrict (position first : Nat) (s : State) : List UInt8 → Except Fault (List Char)
  | [] =>
    match s with
    | .start => .ok []
    | .inside _ seen .. => .error (.unfinished first seen)
    | .surrogate => .error (.badContinuation first 0 1)
  | byte :: rest =>
    let b := byte.toNat
    match s.accept b with
    | some (out, next) =>
      (readStrict (position + 1) (if s = .start then b else first) next rest).map (out ++ ·)
    | none =>
      match s with
      | .start => .error (.badStart b position)
      | .inside _ seen .. => .error (.badContinuation first (position - seen) seen)
      | .surrogate => .error (.badContinuation first (position - 2) 1)

/-- The text of a byte sequence, or what is wrong with it. -/
def decodeStrict (bytes : List UInt8) : Except Fault (List Char) :=
  readStrict 0 0 .start bytes

/-- A number below 16 as a lower-case hexadecimal digit. -/
def hexDigit (n : Nat) : Char :=
  if n < 10 then Char.ofNat (48 + n) else Char.ofNat (87 + n)

/-- The bytes that a fault is about, in words. -/
def Fault.place (byte position count : Nat) : String :=
  if count = 1 then
    "byte 0x" ++ String.ofList [hexDigit (byte / 16), hexDigit (byte % 16)] ++
      s!" in position {position}"
  else s!"bytes in position {position}-{position + count - 1}"

def Fault.message (f : Fault) : String :=
  let (place, reason) := match f with
    | .badStart byte position => (place byte position 1, "invalid start byte")
    | .badContinuation byte position count =>
      (place byte position count, "invalid continuation byte")
    | .unfinished byte count => (place byte 0 count, "unexpected end of data")
  "'utf-8' codec can't decode " ++ place ++ ": " ++ reason

end LineShell.Text.Utf8
