import LineShell.Text.Utf8
import LineShell.Yaml.Scalar

/-!
The tokens of a YAML text. In block context the indentation opens and closes collections; a key
without a question mark shows itself only by the colon behind it, so the place of every possible key
is kept, and the key's token is put there when the colon comes.
-/

namespace LineShell.Yaml

inductive Token where
  | streamEnd
  /-- A version directive with its major number. -/
  | version (major : Nat)
  /-- A tag directive: a handle and what it stands for. -/
  | tagHandle (handle expansion : String)
  | unknownDirective
  | documentStart
  | documentEnd
  | blockSequence
  | blockMapping
  | blockEnd
  | flowSequence
  | flowSequenceEnd
  | flowMapping
  | flowMappingEnd
  | flowEntry
  | blockEntry
  | key
  | value
  | alias (name : String)
  | anchor (name : String)
  /-- A tag: a suffix, and the handle before it unless the tag is written in full. -/
  | tag (handle : Option String) (suffix : String)
  /-- A scalar. The type of a plain one is found from its text. -/
  | scalar (plain : Bool) (text : String)
  /-- The text cannot be read any further. -/
  | broken (fault : SyntaxFault)
  deriving DecidableEq, Repr

/-- A place where a key may have begun. -/
structure PossibleKey where
  /-- The number of tokens before it. -/
  position : Nat
  /-- It begins a row of a block mapping, so that nothing else can stand there. -/
  required : Bool
  cursor : Cursor

/-- The tokens read so far and what is known about the place reached. -/
structure Lexer where
  cursor : Cursor
  tokens : List Token := []
  /-- The column of the present block collection. -/
  indent : Int := -1
  /-- The columns of the collections around it, innermost first. -/
  outer : List Int := []
  flowLevel : Nat := 0
  /-- The possible keys, each with its flow level. -/
  keys : List (Nat × PossibleKey) := []
  keyAllowed : Bool := true

namespace Lexer

def push (l : Lexer) (t : Token) : Lexer := { l with tokens := t :: l.tokens }

/-- Puts tokens behind the first `position` ones. -/
def insertAt (l : Lexer) (position : Nat) (added : List Token) : Lexer :=
  let later := l.tokens.length - position
  { l with tokens := l.tokens.take later ++ added.reverse ++ l.tokens.drop later }

/-- Closes the block collections that are indented deeper than `column`. -/
def close (indent column : Int) : List Int → Nat × Int × List Int
  | [] => (0, indent, [])
  | around :: outer =>
    if indent > column then
      let (closed, indent, outer) := close around column outer
      (closed + 1, indent, outer)
    else (0, indent, around :: outer)

/-- Ends the block collections that the column ends. -/
def unwind (l : Lexer) (column : Int) : Lexer :=
  if l.flowLevel > 0 then l
  else
    let (closed, indent, outer) := close l.indent column l.outer
    { l with indent, outer, tokens := List.replicate closed .blockEnd ++ l.tokens }

/-- Begins a block collection if the column is deeper than the present one. The flag says whether
it is. -/
def deepen (l : Lexer) (column : Int) : Bool × Lexer :=
  if l.indent < column then (true, { l with indent := column, outer := l.indent :: l.outer })
  else (false, l)

def key? (l : Lexer) : Option PossibleKey :=
  (l.keys.find? fun k => k.1 = l.flowLevel).map Prod.snd

/-- Gives up the possible key of the present flow level; one that is required has to be a key. -/
def dropKey (l : Lexer) : Except SyntaxFault Lexer :=
  match l.key? with
  | some k =>
    if k.required then .error .malformed
    else .ok { l with keys := l.keys.filter fun k => k.1 ≠ l.flowLevel }
  | none => .ok l

def saveKey (l : Lexer) : Except SyntaxFault Lexer :=
  if l.keyAllowed then do
    let required := l.flowLevel = 0 && l.indent = l.cursor.column
    let l ← l.dropKey
    .ok { l with keys := (l.flowLevel, ⟨l.tokens.length, required, l.cursor⟩) :: l.keys }
  else .ok l

/-- A key lies on one row and is no longer than this many characters. -/
def longestKey : Nat := 1024

/-- Gives up the possible keys that are too far back. -/
def dropStaleKeys (l : Lexer) : Except SyntaxFault Lexer :=
  let stale (k : PossibleKey) : Bool :=
    k.cursor.row ≠ l.cursor.row || l.cursor.index - k.cursor.index > longestKey
  if l.keys.any fun k => stale k.2 && k.2.required then .error .malformed
  else .ok { l with keys := l.keys.filter fun k => !stale k.2 }

/-- Steps over spaces, comments and line breaks. Every round reads a character, so `fuel` need not
exceed the length. -/
def skipGap (l : Lexer) : (fuel : Nat) → Lexer
  | 0 => l
  | fuel + 1 =>
    let c := l.cursor.skipWhile (· = ' ')
    let c := if c.peek = '#' then c.skipWhile (!isEndOrBreak ·) else c
    if isBreak c.peek then
      skipGap { l with cursor := c.lineBreak.2, keyAllowed := l.keyAllowed || l.flowLevel = 0 } fuel
    else { l with cursor := c }

/-- Adds a token that is `width` characters wide. -/
def take (l : Lexer) (width : Nat) (t : Token) : Lexer :=
  { l.push t with cursor := l.cursor.skip width }

def finish (l : Lexer) : Except SyntaxFault Lexer := do
  let l ← (l.unwind (-1)).dropKey
  .ok (l.push .streamEnd)

/-- A mark that begins or ends a document. -/
def documentMark (l : Lexer) (t : Token) : Except SyntaxFault Lexer := do
  let l ← (l.unwind (-1)).dropKey
  .ok { l.take 3 t with keyAllowed := false }

def openFlow (l : Lexer) (t : Token) : Except SyntaxFault Lexer := do
  let l ← l.saveKey
  .ok { l.take 1 t with flowLevel := l.flowLevel + 1, keyAllowed := true }

def closeFlow (l : Lexer) (t : Token) : Except SyntaxFault Lexer := do
  let l ← l.dropKey
  .ok { l.take 1 t with flowLevel := l.flowLevel - 1, keyAllowed := false }

def comma (l : Lexer) : Except SyntaxFault Lexer := do
  let l ← l.dropKey
  .ok { l.take 1 .flowEntry with keyAllowed := true }

/-- Begins a block collection for an indicator at the present column, if need be. -/
def enter (l : Lexer) (t : Token) : Except SyntaxFault Lexer :=
  if l.flowLevel > 0 then .ok l
  else if !l.keyAllowed then .error .malformed
  else
    let (deeper, l) := l.deepen l.cursor.column
    .ok (if deeper then l.push t else l)

def dash (l : Lexer) : Except SyntaxFault Lexer := do
  let l ← l.enter .blockSequence
  let l ← l.dropKey
  .ok { l.take 1 .blockEntry with keyAllowed := true }

def questionMark (l : Lexer) : Except SyntaxFault Lexer := do
  let l ← l.enter .blockMapping
  let l ← l.dropKey
  .ok { l.take 1 .key with keyAllowed := l.flowLevel = 0 }

/-- A colon. What was a possible key is one now. -/
def colon (l : Lexer) : Except SyntaxFault Lexer :=
  match l.key? with
  | some k =>
    let l := { l with keys := l.keys.filter fun k => k.1 ≠ l.flowLevel }
    let (deeper, l) := if l.flowLevel = 0 then l.deepen k.cursor.column else (false, l)
    let l := l.insertAt k.position (if deeper then [.blockMapping, .key] else [.key])
    .ok { l.take 1 .value with keyAllowed := false }
  | none => do
    let l ← l.enter .blockMapping
    let l ← l.dropKey
    .ok { l.take 1 .value with keyAllowed := l.flowLevel = 0 }

/-- Letters behind the indicator of an anchor or an alias. -/
def anchorName (c : Cursor) : Except SyntaxFault (String × Cursor) :=
  let (name, c) := c.step.span isWordChar
  if name.isEmpty ||
      !(isGap c.peek || ['?', ':', ',', ']', '}', '%', '@', '`'].contains c.peek) then
    .error .malformed
  else .ok (String.ofList name, c)

/-- The bytes of a run of escapes, a percent sign and two hexadecimal digits for each. -/
def escapedBytes : List Char → Except SyntaxFault (List UInt8)
  | '%' :: high :: low :: rest =>
    match hexNumber? [high, low] with
    | some n => (escapedBytes rest).map (UInt8.ofNat n :: ·)
    | none => .error .malformed
  | '%' :: _ => .error .malformed
  | _ => .ok []

/-- A character of a tag; the percent sign begins an escape. -/
def isTagChar (c : Char) : Bool :=
  c.isAlphanum || "-;/?:@&=+$,_.!~*'()[]%".toList.contains c

/-- Reads the text of a tag, escapes being UTF-8. -/
def tagText (c : Cursor) : (fuel : Nat) → Except SyntaxFault (List Char × Cursor)
  | 0 => .ok ([], c)
  | fuel + 1 =>
    if !isTagChar c.peek then .ok ([], c)
    else if c.peek = '%' then do
      let bytes ← escapedBytes c.rest
      match Text.Utf8.decodeStrict bytes with
      | .error _ => .error .malformed
      | .ok found =>
        let (more, c) ← tagText (c.skip (3 * bytes.length)) fuel
        .ok (found ++ more, c)
    else do
      let (more, last) ← tagText c.step fuel
      .ok (c.peek :: more, last)

def tagUri (c : Cursor) : Except SyntaxFault (String × Cursor) := do
  let (text, c) ← tagText c c.rest.length
  if text.isEmpty then .error .malformed else .ok (String.ofList text, c)

/-- Reads a tag handle: an exclamation mark alone, or a word between two of them. -/
def handle (c : Cursor) : Except SyntaxFault (String × Cursor) :=
  if c.peek ≠ '!' then .error .malformed
  else if c.ahead 1 = ' ' then .ok ("!", c.step)
  else
    let (word, c) := c.step.span isWordChar
    if c.peek = '!' then .ok ("!" ++ String.ofList word ++ "!", c.step) else .error .malformed

def tag (c : Cursor) : Except SyntaxFault (Token × Cursor) := do
  let (t, c) ←
    if c.ahead 1 = '<' then do
      let (suffix, c) ← tagUri (c.skip 2)
      if c.peek = '>' then pure (Token.tag none suffix, c.step) else .error .malformed
    else if isGap (c.ahead 1) then pure (Token.tag none "!", c.step)
    else do
      let word := c.step.rest.takeWhile fun ch => !(ch = ' ' || isEndOrBreak ch)
      let (h, c) ← if word.contains '!' then handle c else pure ("!", c.step)
      let (suffix, c) ← tagUri c
      pure (Token.tag (some h) suffix, c)
  if c.peek = ' ' || isEndOrBreak c.peek then .ok (t, c) else .error .malformed

def versionNumber (c : Cursor) : Except SyntaxFault (Nat × Cursor) :=
  let (digits, c) := c.span Char.isDigit
  if digits.isEmpty then .error .malformed
  else .ok (digits.foldl (fun n d => n * 10 + (d.toNat - 48)) 0, c)

/-- A space, a line break or the end of the text must stand here. -/
def needGap (c : Cursor) : Except SyntaxFault Unit :=
  if c.peek = ' ' || isEndOrBreak c.peek then .ok () else .error .malformed

/-- Reads a directive from its percent sign on. -/
def directiveToken (c : Cursor) : Except SyntaxFault (Token × Cursor) := do
  let (name, c) := c.step.span isWordChar
  if name.isEmpty then .error .malformed
  needGap c
  if name = "YAML".toList then
    let (major, c) ← versionNumber (c.skipWhile (· = ' '))
    if c.peek ≠ '.' then .error .malformed
    let (_, c) ← versionNumber c.step
    needGap c
    .ok (.version major, c)
  else if name = "TAG".toList then
    let (h, c) ← handle (c.skipWhile (· = ' '))
    if c.peek ≠ ' ' then .error .malformed
    let (expansion, c) ← tagUri (c.skipWhile (· = ' '))
    needGap c
    .ok (.tagHandle h expansion, c)
  else .ok (.unknownDirective, c.skipWhile (!isEndOrBreak ·))

/-- A directive, which ends its row. -/
def directive (l : Lexer) : Except SyntaxFault Lexer := do
  let l ← (l.unwind (-1)).dropKey
  let (t, c) ← directiveToken l.cursor
  let c := c.skipWhile (· = ' ')
  let c := if c.peek = '#' then c.skipWhile (!isEndOrBreak ·) else c
  if !isEndOrBreak c.peek then .error .malformed
  .ok { l.push t with cursor := c.lineBreak.2, keyAllowed := false }

/-- A token that may begin a key, read by `read`. -/
def word (l : Lexer) (read : Cursor → Except SyntaxFault (Token × Cursor)) :
    Except SyntaxFault Lexer := do
  let l ← l.saveKey
  let (t, cursor) ← read l.cursor
  .ok { l.push t with cursor, keyAllowed := false }

def quotedScalar (quote : Char) (c : Cursor) : Except SyntaxFault (Token × Cursor) := do
  let (text, c) ← quotedText quote c.step (c.rest.length + 1)
  .ok (.scalar false (String.ofList text), c)

def blockScalar (l : Lexer) (folds : Bool) : Except SyntaxFault Lexer := do
  let l ← l.dropKey
  let (text, cursor) ← blockText folds l.indent l.cursor.step
  .ok { l.push (.scalar false (String.ofList text)) with cursor, keyAllowed := true }

/-- A plain scalar. Behind a break in its last gap a key may begin. -/
def plainScalar (l : Lexer) : Except SyntaxFault Lexer := do
  let l ← l.saveKey
  let c := l.cursor
  let (text, broken, cursor) :=
    plainText (l.flowLevel > 0) (l.indent + 1) [] false c c.rest.length
  .ok { l.push (.scalar true (String.ofList text)) with cursor, keyAllowed := broken }

/-- Characters that begin no plain scalar, or only before a character that is no gap. -/
def isIndicator (c : Char) : Bool :=
  isGap c || "-?:,[]{}#&*!|>'\"%@`".toList.contains c

def atPlain (inFlow : Bool) (c : Cursor) : Bool :=
  !isIndicator c.peek ||
    (!isGap (c.ahead 1) && (c.peek = '-' || (!inFlow && (c.peek = '?' || c.peek = ':'))))

def token (l : Lexer) : Except SyntaxFault Lexer :=
  let c := l.cursor
  let inFlow := l.flowLevel > 0
  let beforeGap := isGap (c.ahead 1)
  match c.peek with
  | '\x00' => l.finish
  | '[' => l.openFlow .flowSequence
  | '{' => l.openFlow .flowMapping
  | ']' => l.closeFlow .flowSequenceEnd
  | '}' => l.closeFlow .flowMappingEnd
  | ',' => l.comma
  | '*' => l.word fun c => do let (name, c) ← anchorName c; .ok (.alias name, c)
  | '&' => l.word fun c => do let (name, c) ← anchorName c; .ok (.anchor name, c)
  | '!' => l.word tag
  | '\'' => l.word (quotedScalar '\'')
  | '"' => l.word (quotedScalar '"')
  | ch =>
    if ch = '%' && c.column = 0 then l.directive
    else if c.column = 0 && c.atMark '-' then l.documentMark .documentStart
    else if c.column = 0 && c.atMark '.' then l.documentMark .documentEnd
    else if ch = '-' && beforeGap then l.dash
    else if ch = '?' && (inFlow || beforeGap) then l.questionMark
    else if ch = ':' && (inFlow || beforeGap) then l.colon
    else if ch = '|' && !inFlow then l.blockScalar false
    else if ch = '>' && !inFlow then l.blockScalar true
    else if atPlain inFlow c then l.plainScalar
    else .error .malformed

def next (l : Lexer) : Except SyntaxFault Lexer := do
  let l ← (l.skipGap (l.cursor.rest.length + 1)).dropStaleKeys
  (l.unwind l.cursor.column).token

/-- Reads tokens to the end of the text. Every token but the last is at least one character wide, so
`fuel` need not exceed the length by more than one. -/
def run (l : Lexer) : (fuel : Nat) → List Token
  | 0 => l.tokens.reverse
  | fuel + 1 =>
    match l.next with
    | .error fault => (l.push (.broken fault)).tokens.reverse
    | .ok l => if l.tokens.head? = some .streamEnd then l.tokens.reverse else l.run fuel

end Lexer

/-- The tokens of a text. A mark of byte order at its start is no part of it. -/
def tokens (text : List Char) : List Token :=
  if text.all isAllowed then
    let c : Cursor := ⟨text, 0, 0, 0⟩
    let c := if c.peek = '\uFEFF' then c.step else c
    Lexer.run ⟨c, [], -1, [], 0, [], true⟩ (text.length + 2)
  else [.broken .malformed]

end LineShell.Yaml
