import LineShell.Text.Lines

/-!
Walking over the characters of a YAML document: what comes next, where it stands, and the classes of
characters on which the structure depends. Behind the last character stands NUL, which no document
holds.
-/

namespace LineShell.Yaml

/-- Why a text is no document. -/
inductive SyntaxFault where
  /-- The text is no single well-formed document. -/
  | malformed
  /-- The number of an escaped character is that of none. -/
  | noCodePoint
  deriving DecidableEq, Repr

def isBreak (c : Char) : Bool :=
  c = '\n' || c = '\r' || c = '\u0085' || c = '\u2028' || c = '\u2029'

def isEndOrBreak (c : Char) : Bool :=
  c = '\x00' || isBreak c

/-- The end of the text, a line break, a space or a tab. -/
def isGap (c : Char) : Bool :=
  isEndOrBreak c || c = ' ' || c = '\t'

/-- A letter, a digit, a dash or an underscore, all of ASCII. -/
def isWordChar (c : Char) : Bool :=
  c.isAlphanum || c = '-' || c = '_'

def isAllowed (c : Char) : Bool :=
  let n := c.toNat
  n = 9 || n = 10 || n = 13 || (0x20 ≤ n && n ≤ 0x7E) || n = 0x85 || (0xA0 ≤ n && n ≤ 0xD7FF) ||
    (0xE000 ≤ n && n ≤ 0xFFFD) || 0x10000 ≤ n

/-- The rest of a text, and where it stands. -/
structure Cursor where
  rest : List Char
  index : Nat := 0
  row : Nat := 0
  column : Int := 0
  deriving Repr, Inhabited

namespace Cursor

def ahead (c : Cursor) (n : Nat) : Char := c.rest.getD n '\x00'

def peek (c : Cursor) : Char := c.rest.headD '\x00'

def step (c : Cursor) : Cursor :=
  match c.rest with
  | [] => c
  | ch :: rest =>
    let index := c.index + 1
    if isBreak ch && !(ch = '\r' && rest.head? = some '\n') then ⟨rest, index, c.row + 1, 0⟩
    else ⟨rest, index, c.row, if ch = '\uFEFF' then c.column else c.column + 1⟩

def skip (c : Cursor) : Nat → Cursor
  | 0 => c
  | n + 1 => c.step.skip n

/-- The characters before the first that does not satisfy `p`, and the cursor behind them. -/
def span (c : Cursor) (p : Char → Bool) : List Char × Cursor :=
  let found := c.rest.takeWhile p
  (found, c.skip found.length)

def skipWhile (c : Cursor) (p : Char → Bool) : Cursor := (c.span p).2

/-- Reads a line break, if there is one: the characters it stands for. -/
def lineBreak (c : Cursor) : List Char × Cursor :=
  match c.rest with
  | '\r' :: '\n' :: _ => (['\n'], c.skip 2)
  | ch :: _ =>
    if ch = '\u2028' || ch = '\u2029' then ([ch], c.step)
    else if isBreak ch then (['\n'], c.step)
    else ([], c)
  | [] => ([], c)

/-- Three dashes or dots that stand alone begin or end a document. -/
def atMark (c : Cursor) (mark : Char) : Bool :=
  c.rest.take 3 = [mark, mark, mark] && isGap (c.ahead 3)

/-- A mark of either kind stands here. -/
def atDocumentMark (c : Cursor) : Bool := c.atMark '-' || c.atMark '.'

end Cursor

end LineShell.Yaml
