import LineShell.Edit.Key

/-!
Decoding characters into keys. Characters are kept while they may be the beginning of a sequence;
when no sequence can be completed any more, what is there is read as the longest sequences it
begins with, or as literal characters. Pasted text is kept as it is until its end mark.
-/

namespace LineShell.Edit

/-- How a decoder gets on with the keys that it has read. -/
inductive KeyDecoder.Progress where
  | ready
  | busy
  /-- The handling of a key was given up. -/
  | broken
  deriving DecidableEq, Repr

/-- The characters that wait for more. -/
structure KeyDecoder where
  pending : List Char := []
  /-- The pasted text received so far, last character first, while a paste is going on. -/
  paste : Option (List Char) := none
  progress : KeyDecoder.Progress := .ready
  deriving DecidableEq, Repr

namespace KeyDecoder

/-- No character is read, as long as a key is handled, and for good if that was given up. -/
def stalled (d : KeyDecoder) : Bool := d.progress ≠ .ready

theorem stalled_eq_false {d : KeyDecoder} : d.stalled = false ↔ d.progress = .ready := by
  simp [stalled]

/-- The handling of a key is given up, unless the decoder has been reset meanwhile. -/
def giveUp (d : KeyDecoder) : KeyDecoder :=
  if d.progress = .busy then { d with progress := .broken } else d

def pasteEnd : List Char := ['\x1b', '[', '2', '0', '1', '~']

/-- Reads the sequences that a text begins with, trying `n` characters, then fewer. -/
def readLongest : Nat → List Char → List Key × List Char
  | 0, s => ([], s)
  | n + 1, s =>
    match Key.ofSequence? (s.take (n + 1)) with
    | some keys =>
      let (more, rest) := readLongest n (s.drop (n + 1))
      (keys ++ more, rest)
    | none => readLongest n s

/-- Reads what can no longer become a sequence: the longest sequences at its beginning, or else its
first character as a literal. -/
def readSome (s : List Char) : List Key × List Char :=
  match readLongest s.length s, s with
  | ([], _), [] => ([], [])
  | ([], _), c :: rest => ([.literal c], rest)
  | found, _ => found

/-- Reads keys until the rest is the beginning of a sequence. Every round reads a character, so
`fuel` need not exceed the length. -/
def settle : (fuel : Nat) → List Char → List Key × List Char
  | 0, s => ([], s)
  | fuel + 1, s =>
    if s.isEmpty || Key.isOpen s then ([], s)
    else match Key.ofSequence? s with
      | some keys => (keys, [])
      | none =>
        let (keys, rest) := readSome s
        let (more, rest) := settle fuel rest
        (keys ++ more, rest)

/-- Reads one character outside a paste: the keys it settles, and what waits. -/
def read (d : KeyDecoder) (c : Char) : List Key × KeyDecoder :=
  let s := d.pending ++ [c]
  let (keys, rest) := settle s.length s
  (keys, { d with pending := rest })

/-- Reads one character of a paste, `received` being what came before it: the complete content, or
what has been received now. -/
def readPaste (received : List Char) (c : Char) : List Char ⊕ List Char :=
  let received := c :: received
  if pasteEnd.reverse.isPrefixOf received then .inl (received.drop pasteEnd.length).reverse
  else .inr received

end KeyDecoder

end LineShell.Edit
