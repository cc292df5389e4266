import LineShell.Yaml.Token

/-!
The nodes of a YAML document: scalars, sequences and mappings, with their tags spelled out and
aliases replaced by what they stand for. An alias to a collection that is not complete yet stands
for an empty collection of its kind.
-/

namespace LineShell.Yaml

/-- A node. Without a tag the type of a plain scalar is found from its text, that of another node
from its kind. -/
inductive Node where
  | scalar (tag : Option String) (plain : Bool) (text : String)
  | sequence (tag : Option String) (items : List Node)
  | mapping (tag : Option String) (entries : List (Node × Node))
  deriving Repr, Inhabited

/-- What is left of the tokens, and the names in force. -/
structure Source where
  tokens : List Token
  anchors : List (String × Node) := []
  /-- The tag handles and what they stand for. -/
  handles : List (String × String) := []

/-- What every tag of the language itself begins with. -/
def coreTags : String := "tag:yaml.org,2002:"

/-- The handles that need no directive. -/
def defaultHandles : List (String × String) := [("!", "!"), ("!!", coreTags)]

/-- A step over tokens. -/
abbrev Reading := StateT Source (Except SyntaxFault)

namespace Reading

def peek : Reading Token := do
  return (← get).tokens.headD .streamEnd

def advance : Reading Unit :=
  modify fun s => { s with tokens := s.tokens.tail }

/-- The next token cannot stand here. -/
def refuse {α : Type} : Reading α := do
  match ← peek with
  | .broken fault => throw fault
  | _ => throw .malformed

/-- Steps over a token that has to stand here. -/
def expect (t : Token) : Reading Unit := do
  if (← peek) = t then advance else refuse

def skip? (t : Token) : Reading Bool := do
  if (← peek) = t then
    advance
    return true
  return false

/-- A node of which nothing is written. -/
def empty : Node := .scalar none true ""

/-- Spells a tag out; the lone exclamation mark is no tag. -/
def fullTag (handle : Option String) (suffix : String) : Reading (Option String) := do
  match handle with
  | none => return if suffix = "!" then none else some suffix
  | some h =>
    match (← get).handles.lookup h with
    | some expansion => return some (expansion ++ suffix)
    | none => refuse

/-- What stands before the content of a node: anchor, and tag, each if written. -/
structure Properties where
  anchor : Option String := none
  tag : Option (Option String) := none

/-- Reads an anchor and a tag, in either order, each at most once. -/
def properties (p : Properties) : (fuel : Nat) → Reading Properties
  | 0 => return p
  | fuel + 1 => do
    match ← peek, p with
    | .anchor name, ⟨none, _⟩ =>
      advance
      properties { p with anchor := some name } fuel
    | .tag handle suffix, ⟨_, none⟩ =>
      advance
      let tag ← fullTag handle suffix
      properties { p with tag := some tag } fuel
    | _, _ => return p

/-- Gives a node its name, if it has one. -/
def name (anchor : Option String) (n : Node) : Reading Node := do
  match anchor with
  | some a => modify fun s => { s with anchors := (a, n) :: s.anchors }
  | none => pure ()
  return n

def named (anchor : String) : Reading Node := do
  match (← get).anchors.lookup anchor with
  | some n => return n
  | none => throw .malformed

def needFresh (anchor : Option String) : Reading Unit := do
  match anchor with
  | some a => if ((← get).anchors.lookup a).isSome then throw .malformed
  | none => pure ()

mutual

/-- Reads a node. Block collections are allowed if `block` holds, and entries of a sequence without
an indentation of its own if `entries` does. -/
def node (block entries : Bool) : (fuel : Nat) → Reading Node
  | 0 => throw .malformed
  | fuel + 1 => do
    match ← peek with
    | .alias a =>
      advance
      named a
    | _ =>
      let p ← properties {} 2
      needFresh p.anchor
      let tag := p.tag.getD none
      match ← peek, block, entries with
      | .blockEntry, _, true =>
        let _ ← name p.anchor (.sequence tag [])
        name p.anchor (.sequence tag (← looseItems fuel))
      | .scalar plain text, _, _ =>
        advance
        name p.anchor (.scalar tag (if p.tag = some none then true else plain) text)
      | .flowSequence, _, _ =>
        advance
        let _ ← name p.anchor (.sequence tag [])
        name p.anchor (.sequence tag (← flowItems true fuel))
      | .flowMapping, _, _ =>
        advance
        let _ ← name p.anchor (.mapping tag [])
        name p.anchor (.mapping tag (← flowEntries true fuel))
      | .blockSequence, true, _ =>
        advance
        let _ ← name p.anchor (.sequence tag [])
        name p.anchor (.sequence tag (← blockItems fuel))
      | .blockMapping, true, _ =>
        advance
        let _ ← name p.anchor (.mapping tag [])
        name p.anchor (.mapping tag (← blockEntries fuel))
      | _, _, _ =>
        if p.anchor.isSome || p.tag.isSome then name p.anchor (.scalar tag true "")
        else refuse

/-- Reads a node, or nothing before one of the tokens in `ends`. -/
def nodeUnless (ends : List Token) (block entries : Bool) : (fuel : Nat) → Reading Node
  | 0 => throw .malformed
  | fuel + 1 => do
    if ends.contains (← peek) then return empty else node block entries fuel

def blockItems : (fuel : Nat) → Reading (List Node)
  | 0 => throw .malformed
  | fuel + 1 => do
    if ← skip? .blockEntry then
      let item ← nodeUnless [.blockEntry, .blockEnd] true false fuel
      return item :: (← blockItems fuel)
    else
      expect .blockEnd
      return []

/-- Reads the items of a sequence that is not indented in its mapping. -/
def looseItems : (fuel : Nat) → Reading (List Node)
  | 0 => throw .malformed
  | fuel + 1 => do
    if ← skip? .blockEntry then
      let item ← nodeUnless [.blockEntry, .key, .value, .blockEnd] true false fuel
      return item :: (← looseItems fuel)
    else return []

def blockEntries : (fuel : Nat) → Reading (List (Node × Node))
  | 0 => throw .malformed
  | fuel + 1 => do
    if ← skip? .key then
      let k ← nodeUnless [.key, .value, .blockEnd] true true fuel
      let v ← valueUnless [.key, .value, .blockEnd] true fuel
      return (k, v) :: (← blockEntries fuel)
    else
      expect .blockEnd
      return []

/-- Reads the value of an entry, or nothing if there is no colon. -/
def valueUnless (ends : List Token) (block : Bool) : (fuel : Nat) → Reading Node
  | 0 => throw .malformed
  | fuel + 1 => do
    if ← skip? .value then nodeUnless ends block block fuel else return empty

/-- Reads the items of a flow sequence; an entry with a key is a mapping of its own. -/
def flowItems (first : Bool) : (fuel : Nat) → Reading (List Node)
  | 0 => throw .malformed
  | fuel + 1 => do
    if ← skip? .flowSequenceEnd then return []
    if !first then expect .flowEntry
    if ← skip? .key then
      let k ← nodeUnless [.value, .flowEntry, .flowSequenceEnd] false false fuel
      let v ← valueUnless [.flowEntry, .flowSequenceEnd] false fuel
      return .mapping none [(k, v)] :: (← flowItems false fuel)
    else if ← skip? .flowSequenceEnd then return []
    else
      let item ← node false false fuel
      return item :: (← flowItems false fuel)

def flowEntries (first : Bool) : (fuel : Nat) → Reading (List (Node × Node))
  | 0 => throw .malformed
  | fuel + 1 => do
    if ← skip? .flowMappingEnd then return []
    if !first then expect .flowEntry
    if ← skip? .key then
      let k ← nodeUnless [.value, .flowEntry, .flowMappingEnd] false false fuel
      let v ← valueUnless [.flowEntry, .flowMappingEnd] false fuel
      return (k, v) :: (← flowEntries false fuel)
    else if ← skip? .flowMappingEnd then return []
    else
      let k ← node false false fuel
      return (k, empty) :: (← flowEntries false fuel)

end

/-- Reads the directives before a document. `versioned` says that a version has been given. -/
def directives (versioned : Bool) : (fuel : Nat) → Reading Unit
  | 0 => throw .malformed
  | fuel + 1 => do
    match ← peek with
    | .version major =>
      advance
      if versioned || major ≠ 1 then throw .malformed
      directives true fuel
    | .tagHandle handle expansion =>
      advance
      if ((← get).handles.lookup handle).isSome then throw .malformed
      modify fun s => { s with handles := (handle, expansion) :: s.handles }
      directives versioned fuel
    | .unknownDirective =>
      advance
      directives versioned fuel
    | _ => return

/-- The token begins a document with a head of its own. -/
def isHead : Token → Bool
  | .version _ | .tagHandle .. | .unknownDirective | .documentStart => true
  | _ => false

/-- Steps over marks that end a document. -/
def skipEnds : (fuel : Nat) → Reading Unit
  | 0 => return
  | fuel + 1 => do
    if ← skip? .documentEnd then skipEnds fuel

/-- Reads the only document of a text, if there is one. -/
def document (fuel : Nat) : Reading (Option Node) := do
  let first ← peek
  if first = .streamEnd then return none
  let root ←
    if isHead first then do
      directives false fuel
      modify fun s => { s with handles := s.handles ++ defaultHandles }
      expect .documentStart
      let content ← peek
      if isHead content || content = .documentEnd || content = .streamEnd then pure empty
      else node true false fuel
    else do
      modify fun s => { s with handles := defaultHandles }
      node true false fuel
  skipEnds fuel
  expect .streamEnd
  return some root

end Reading

/-- The document that a text holds, none if the text is empty. -/
def Node.ofText (text : List Char) : Except SyntaxFault (Option Node) := do
  let ts := tokens text
  let fuel := 4 * ts.length + 8
  (Reading.document fuel).run' ⟨ts, [], []⟩

end LineShell.Yaml
