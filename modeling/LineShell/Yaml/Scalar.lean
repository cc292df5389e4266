import LineShell.Yaml.Cursor

/-!
Scalars as they are written: plain, quoted, and in blocks. Each reader takes the cursor at the
start of a scalar and yields its text and the cursor behind it. Line breaks inside a scalar are
folded: one break is a space, and further ones are kept.
-/

namespace LineShell.Yaml

open Cursor

/-- Steps over breaks, and over blanks after each, in a quoted scalar: the breaks found. `fuel`
bounds the number of rows. -/
def quotedBreaks (c : Cursor) : (fuel : Nat) → Except SyntaxFault (List Char × Cursor)
  | 0 => .ok ([], c)
  | fuel + 1 =>
    if c.atDocumentMark then .error .malformed
    else
      let c := c.skipWhile fun ch => ch = ' ' || ch = '\t'
      if isBreak c.peek then do
        let (brk, c) := c.lineBreak
        let (more, c) ← quotedBreaks c fuel
        .ok (brk ++ more, c)
      else .ok ([], c)

/-- The text of a folded break: one break is a space, and the first of several goes away. -/
def folded (brk breaks : List Char) : List Char :=
  if brk ≠ ['\n'] then brk ++ breaks else if breaks.isEmpty then [' '] else breaks

def hexValue? (c : Char) : Option Nat :=
  if '0' ≤ c ∧ c ≤ '9' then some (c.toNat - 48)
  else if 'a' ≤ c ∧ c ≤ 'f' then some (c.toNat - 87)
  else if 'A' ≤ c ∧ c ≤ 'F' then some (c.toNat - 55)
  else none

def hexNumber? (digits : List Char) : Option Nat :=
  digits.foldlM (fun n c => (hexValue? c).map (n * 16 + ·)) 0

def escapeLetter? (c : Char) : Option Char :=
  match c with
  | '0' => some '\x00'
  | 'a' => some '\x07'
  | 'b' => some '\x08'
  | 't' | '\t' => some '\t'
  | 'n' => some '\n'
  | 'v' => some '\x0b'
  | 'f' => some '\x0c'
  | 'r' => some '\r'
  | 'e' => some '\x1b'
  | ' ' | '"' | '\\' | '/' => some c
  | 'N' => some '\u0085'
  | '_' => some '\u00A0'
  | 'L' => some '\u2028'
  | 'P' => some '\u2029'
  | _ => none

/-- The number of digits behind an escape letter for a code point. -/
def escapeWidth? (c : Char) : Option Nat :=
  match c with
  | 'x' => some 2
  | 'u' => some 4
  | 'U' => some 8
  | _ => none

/-- Reads an escape, the backslash being read. -/
def escape (c : Cursor) : Except SyntaxFault (List Char × Cursor) :=
  match escapeLetter? c.peek, escapeWidth? c.peek with
  | some ch, _ => .ok ([ch], c.step)
  | none, some width =>
    let digits := c.step.rest.take width
    match hexNumber? digits with
    | none => .error .malformed
    | some n =>
      if digits.length < width then .error .malformed
      else if n ≥ 0x110000 then .error .noCodePoint
      else .ok ([Char.ofNat n], c.step.skip width)
  | none, none =>
    if isBreak c.peek then
      let c := c.lineBreak.2
      quotedBreaks c c.rest.length
    else .error .malformed

/-- Reads a quoted scalar from inside its quotes on, the closing one included. Every round reads a
character, so `fuel` need not exceed the length. -/
def quotedText (quote : Char) (c : Cursor) :
    (fuel : Nat) → Except SyntaxFault (List Char × Cursor)
  | 0 => .error .malformed
  | fuel + 1 => do
    let ch := c.peek
    let (found, c) ←
      if ch = quote then
        if quote = '\'' && c.ahead 1 = '\'' then .ok (['\''], c.skip 2)
        else return ([], c.step)
      else if quote = '"' && ch = '\\' then escape c.step
      else if ch = ' ' || ch = '\t' || isEndOrBreak ch then
        let (blanks, c) := c.span fun ch => ch = ' ' || ch = '\t'
        if c.peek = '\x00' then .error .malformed
        else if isBreak c.peek then do
          let (brk, c) := c.lineBreak
          let (breaks, c) ← quotedBreaks c c.rest.length
          .ok (folded brk breaks, c)
        else .ok (blanks, c)
      else .ok ([ch], c.step)
    let (more, c) ← quotedText quote c fuel
    return (found ++ more, c)

/-- The end of a piece of a plain scalar: a gap, a colon before one, or in a flow collection one of
its indicators. -/
def endsPlain (inFlow : Bool) (ch next : Char) : Bool :=
  isGap ch ||
    (ch = ':' && (isGap next || (inFlow && [',', '[', ']', '{', '}'].contains next))) ||
    (inFlow && [',', '?', '[', ']', '{', '}'].contains ch)

/-- Reads a piece of a plain scalar, which holds no gap. -/
def plainPiece (inFlow : Bool) : List Char → List Char
  | [] => []
  | ch :: rest =>
    if endsPlain inFlow ch (rest.headD '\x00') then [] else ch :: plainPiece inFlow rest

/-- Steps over spaces and further breaks inside a plain scalar; none at a document mark. -/
def plainBreaks (c : Cursor) : (fuel : Nat) → Option (List Char) × Cursor
  | 0 => (some [], c)
  | fuel + 1 =>
    if c.peek = ' ' then plainBreaks c.step fuel
    else if isBreak c.peek then
      let (brk, c) := c.lineBreak
      if c.atDocumentMark then (none, c)
      else
        let (more, c) := plainBreaks c fuel
        (more.map (brk ++ ·), c)
    else (some [], c)

/-- Reads the gap inside a plain scalar: its text, empty where the scalar ends, whether a break was
in it, and the cursor behind it. -/
def plainGap (c : Cursor) : List Char × Bool × Cursor :=
  let (spaces, c) := c.span (· = ' ')
  if isBreak c.peek then
    let (brk, c) := c.lineBreak
    if c.atDocumentMark then ([], true, c)
    else
      match plainBreaks c c.rest.length with
      | (none, c) => ([], true, c)
      | (some breaks, c) => (folded brk breaks, true, c)
  else (spaces, false, c)

/-- Reads a plain scalar: its text, whether a break follows its last piece, and the cursor behind
it. In block context its further rows are indented by at least `indent`; `gap` is the gap before the
next piece, and `broken` says that there is a break in it. -/
def plainText (inFlow : Bool) (indent : Int) (gap : List Char) (broken : Bool) (c : Cursor) :
    (fuel : Nat) → List Char × Bool × Cursor
  | 0 => ([], broken, c)
  | fuel + 1 =>
    let piece := plainPiece inFlow c.rest
    if c.peek = '#' || piece.isEmpty then ([], broken, c)
    else
      let (next, broken, c) := plainGap (c.skip piece.length)
      if next.isEmpty || c.peek = '#' || (!inFlow && c.column < indent) then
        (gap ++ piece, broken, c)
      else
        let (more, broken, c) := plainText inFlow indent next broken c fuel
        (gap ++ piece ++ more, broken, c)

/-- What becomes of the breaks at the end of a block scalar. -/
inductive Chomping where
  | strip
  | clip
  | keep
  deriving DecidableEq, Repr

/-- Reads the header of a block scalar: chomping and the indentation it gives, in either order. -/
def blockHeader (c : Cursor) : Except SyntaxFault (Chomping × Option Nat × Cursor) := do
  let sign (ch : Char) : Option Chomping :=
    if ch = '+' then some .keep else if ch = '-' then some .strip else none
  let digit (ch : Char) : Option Nat := if ch.isDigit then some (ch.toNat - 48) else none
  let (chomping, increment, c) :=
    match sign c.peek, digit c.peek with
    | some chomping, _ =>
      match digit c.step.peek with
      | some n => (chomping, some n, c.skip 2)
      | none => (chomping, none, c.step)
    | none, some n =>
      match sign c.step.peek with
      | some chomping => (chomping, some n, c.skip 2)
      | none => (Chomping.clip, some n, c.step)
    | none, none => (Chomping.clip, none, c)
  if increment = some 0 then .error .malformed
  else if !(c.peek = ' ' || isEndOrBreak c.peek) then .error .malformed
  else
    let c := c.skipWhile (· = ' ')
    let c := if c.peek = '#' then c.skipWhile (!isEndOrBreak ·) else c
    if isEndOrBreak c.peek then .ok (chomping, increment, c.lineBreak.2) else .error .malformed

/-- Steps over empty rows before the first row of a block scalar: their breaks, and the widest
indentation among them and that row. -/
def blockLead (c : Cursor) : (fuel : Nat) → List Char × Int × Cursor
  | 0 => ([], 0, c)
  | fuel + 1 =>
    if c.peek = ' ' then
      let (breaks, widest, last) := blockLead c.step fuel
      (breaks, max widest c.step.column, last)
    else if isBreak c.peek then
      let (brk, c) := c.lineBreak
      let (breaks, widest, last) := blockLead c fuel
      (brk ++ breaks, widest, last)
    else ([], 0, c)

/-- Steps over spaces up to a column. -/
def indentTo (c : Cursor) (column : Int) : (fuel : Nat) → Cursor
  | 0 => c
  | fuel + 1 => if c.column < column && c.peek = ' ' then indentTo c.step column fuel else c

/-- Steps over the empty rows before the next row of a block scalar: their breaks. -/
def blockBreaks (indent : Int) (c : Cursor) : (fuel : Nat) → List Char × Cursor
  | 0 => ([], c)
  | fuel + 1 =>
    let c := indentTo c indent c.rest.length
    if isBreak c.peek then
      let (brk, c) := c.lineBreak
      let (breaks, c) := blockBreaks indent c fuel
      (brk ++ breaks, c)
    else ([], c)

/-- Reads the rows of a block scalar, `breaks` being the breaks before the present one: the text,
the break after the last row, the breaks behind that, and the cursor. -/
def blockRows (folds : Bool) (indent : Int) (brk breaks : List Char) (c : Cursor) :
    (fuel : Nat) → List Char × List Char × List Char × Cursor
  | 0 => ([], brk, breaks, c)
  | fuel + 1 =>
    if c.column = indent && c.peek ≠ '\x00' then
      let startsBlank := c.peek = ' ' || c.peek = '\t'
      let (row, c) := c.span (!isEndOrBreak ·)
      let (brk, c) := c.lineBreak
      let (next, c) := blockBreaks indent c c.rest.length
      if c.column = indent && c.peek ≠ '\x00' then
        let joint :=
          if folds && brk = ['\n'] && !startsBlank && !(c.peek = ' ' || c.peek = '\t') then
            if next.isEmpty then [' '] else []
          else brk
        let (more, brk, last, c) := blockRows folds indent brk next c fuel
        (breaks ++ row ++ joint ++ more, brk, last, c)
      else (breaks ++ row, brk, next, c)
    else ([], brk, breaks, c)

/-- Reads a block scalar behind its indicator, inside a block indented by `outer`. -/
def blockText (folds : Bool) (outer : Int) (c : Cursor) :
    Except SyntaxFault (List Char × Cursor) := do
  let (chomping, increment, c) ← blockHeader c
  let least := max 1 (outer + 1)
  let (breaks, indent, c) :=
    match increment with
    | none =>
      let (breaks, widest, c) := blockLead c c.rest.length
      (breaks, max least widest, c)
    | some n =>
      let indent := least + n - 1
      let (breaks, c) := blockBreaks indent c (c.rest.length + 1)
      (breaks, indent, c)
  let (text, brk, last, c) := blockRows folds indent [] breaks c c.rest.length
  let ending := match chomping with
    | .strip => []
    | .clip => brk
    | .keep => brk ++ last
  .ok (text ++ ending, c)

end LineShell.Yaml
