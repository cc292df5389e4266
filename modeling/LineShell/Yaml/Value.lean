import LineShell.Datum
import LineShell.Yaml.Form
import LineShell.Yaml.Node

/-!
The values of YAML nodes: scalars by their types, sequences, and mappings with their merge keys
worked in. A mapping's own entries win over merged ones, and later entries over earlier ones.
-/

namespace LineShell.Yaml

/-- Why a text has no value. -/
inductive Fault where
  /-- The text is no single well-formed document of known types. -/
  | malformed
  /-- A scalar has the form of its type and no value; `report` says why. -/
  | noValue (report : String)
  /-- A scalar that is said to be a number holds no character of one. -/
  | noCharacter
  /-- A scalar that is said to be a truth value is none of the words for one. -/
  | noTruthValue (word : String)
  /-- A scalar that is said to be a point in time has no such form. -/
  | noMoment
  deriving DecidableEq, Repr

def Fault.ofSyntax : SyntaxFault → Fault
  | .malformed => .malformed
  | .noCodePoint => .noValue "chr() arg not in range(0x110000)"

/-- The most digits that a decimal number may have. -/
def digitLimit : Nat := 4300

def wholeNumber (base : Nat) (s : List Char) : Except Fault Int :=
  match Text.integer? base s with
  | some n =>
    let count := (s.filter Text.isDecimal).length
    if base = 10 && count > digitLimit then
      .error (.noValue (s!"Exceeds the limit ({digitLimit} digits) for integer string conversion: "
        ++ s!"value has {count} digits; use sys.set_int_max_str_digits() to increase the limit"))
    else .ok n
  | none =>
    .error (.noValue
      (s!"invalid literal for int() with base {base}: " ++ Text.quoted (String.ofList s)))

/-- The number that the parts of a number in sixties make. -/
def inSixties (parts : List Int) : Int :=
  parts.foldl (fun n part => n * 60 + part) 0

/-- Reads a scalar as a whole number. Underscores count for nothing. -/
def intValue (text : String) : Except Fault Int := do
  let s := text.toList.filter (· ≠ '_')
  let (negative, body) := Text.sign s
  let size ← match s, body with
    | [], _ | _, [] => throw .noCharacter
    | _, ['0'] => pure 0
    | _, '0' :: 'b' :: digits => wholeNumber 2 digits
    | _, '0' :: 'x' :: digits => wholeNumber 16 digits
    | _, '0' :: _ => wholeNumber 8 body
    | _, _ =>
      if body.contains ':' then
        return sign negative (inSixties (← (Text.pieces ':' body).mapM (wholeNumber 10)))
      else wholeNumber 10 body
  return sign negative size
where
  /-- The number with the sign that was read. -/
  sign (negative : Bool) (n : Int) : Int := if negative then -n else n

def decimalNumber (s : List Char) : Except Fault Decimal :=
  match Decimal.ofText? s with
  | some d => .ok d
  | none =>
    .error (.noValue ("could not convert string to float: " ++ Text.quoted (String.ofList s)))

def addDecimal : Decimal → Decimal → Decimal
  | .finite m e, .finite m' e' =>
    let low := min e e'
    .finite (m * Int.pow 10 (e - low).toNat + m' * Int.pow 10 (e' - low).toNat) low
  | .finite .., other => other
  | other, _ => other

def sixtyfold : Decimal → Decimal
  | .finite m e => .finite (60 * m) e
  | other => other

/-- Reads a scalar as a number with a point. Underscores count for nothing. -/
def floatValue (text : String) : Except Fault Decimal := do
  let s := (text.toList.filter (· ≠ '_')).map Char.toLower
  let (negative, body) := Text.sign s
  if s.isEmpty then throw .noCharacter
  let size ←
    if String.ofList body = ".inf" then pure (Decimal.infinite false)
    else if String.ofList body = ".nan" then pure Decimal.undefined
    else if body.contains ':' then do
      let parts ← (Text.pieces ':' body).mapM decimalNumber
      pure (parts.foldl (fun n part => addDecimal (sixtyfold n) part) (.finite 0 0))
    else decimalNumber body
  return if negative then size.negate else size

def boolValue (text : String) : Except Fault Bool :=
  let word := String.ofList (text.toList.map Char.toLower)
  match Form.boolWords.lookup word with
  | some b => .ok b
  | none => .error (.noTruthValue word)

def momentValue (text : String) : Except Fault Datum :=
  match Form.moment? text.toList with
  | none => .error .noMoment
  | some m =>
    match m.fault? with
    | some report => .error (.noValue report)
    | none => .ok (.moment text)

def sextet? (c : Char) : Option Nat :=
  if 'A' ≤ c ∧ c ≤ 'Z' then some (c.toNat - 65)
  else if 'a' ≤ c ∧ c ≤ 'z' then some (c.toNat - 71)
  else if '0' ≤ c ∧ c ≤ '9' then some (c.toNat + 4)
  else if c = '+' then some 62
  else if c = '/' then some 63
  else none

/-- Reads bytes in base 64, `group` being the digits of the present group of four and `padding` the
number of padding signs behind them. Other characters are skipped. -/
def binaryValue (group : List Nat) (padding : Nat) : List Char → Except Fault (List UInt8)
  | [] => if group.isEmpty then .ok [] else .error .malformed
  | c :: rest =>
    if c.toNat > 127 then .error .malformed
    else if c = '=' then
      if group.length ≥ 2 && group.length + padding + 1 ≥ 4 then
        if rest.all fun c => c.toNat ≤ 127 then .ok (bytesOf group) else .error .malformed
      else binaryValue group (padding + 1) rest
    else match sextet? c with
      | none => binaryValue group padding rest
      | some n =>
        if group.length = 3 then (binaryValue [] 0 rest).map (bytesOf (group ++ [n]) ++ ·)
        else binaryValue (group ++ [n]) 0 rest
where
  /-- The bytes that the digits of a group fill. -/
  bytesOf (group : List Nat) : List UInt8 :=
    let bits := (group ++ [0, 0, 0, 0]).take 4 |>.foldl (fun n d => n * 64 + d) 0
    ([bits / 65536, bits / 256, bits].map UInt8.ofNat).take (group.length - 1)

def scalarValue (form : Form) (text : String) : Except Fault Datum :=
  match form with
  | .text => .ok (.text text)
  | .bool => (boolValue text).map .bool
  | .int => (intValue text).map .int
  | .float => (floatValue text).map .decimal
  | .null => .ok .null
  | .moment => momentValue text
  | .merge | .default | .reserved => .error .malformed

/-- The type that a tag gives to a scalar. -/
def formOfTag? (tag : String) : Option Form :=
  [("str", Form.text), ("bool", .bool), ("int", .int), ("float", .float), ("null", .null),
    ("timestamp", .moment)].lookup ((tag.dropPrefix? coreTags).elim "" (·.copy))

/-- The type of a scalar node: by its tag, or else by its text if it is plain. -/
def formOf? (tag : Option String) (plain : Bool) (text : String) : Option Form :=
  match tag with
  | some t =>
    if t = coreTags ++ "merge" then some .merge
    else if t = coreTags ++ "value" then some .default
    else formOfTag? t
  | none => some (if plain then Form.ofText text else .text)

/-- A key whose value is merged into the mapping. -/
def Node.isMerge : Node → Bool
  | .scalar tag plain text => formOf? tag plain text = some .merge
  | _ => false

/-- The key `=`, whose value is that of the mapping. -/
def Node.isDefault : Node → Bool
  | .scalar tag plain text => formOf? tag plain text = some .default
  | _ => false

/-- The text of a node that is to be a scalar; a mapping stands for its default value. -/
def Node.scalarText? : (fuel : Nat) → Node → Option String
  | _, .scalar _ _ text => some text
  | fuel + 1, .mapping _ entries =>
    (entries.find? (·.1.isDefault)).bind fun e => scalarText? fuel e.2
  | _, _ => none

/-- Reads the default value of a mapping that has the tag of a scalar. A point in time has to be
written as a scalar itself. -/
def defaultValue (tag : String) (text : String) : Except Fault Datum :=
  match formOfTag? tag with
  | some .moment => .error .noMoment
  | some form => scalarValue form text
  | none =>
    if tag = coreTags ++ "binary" then (binaryValue [] 0 text.toList).map .bytes
    else .error .malformed

def isKey : Datum → Bool
  | .list _ | .map _ | .set _ => false
  | _ => true

def sameKey : Datum → Datum → Bool
  | .null, .null => true
  | .bool a, .bool b => a = b
  | .int a, .int b => a = b
  | .text a, .text b => a = b
  | .bytes a, .bytes b => a = b
  | .moment a, .moment b => a = b
  | .decimal a, .decimal b => a = b
  | _, _ => false

/-- Puts an entry into a mapping; a key that is there keeps its place and gets the new value. -/
def putEntry (entries : List (Datum × Datum)) (entry : Datum × Datum) : List (Datum × Datum) :=
  if entries.any fun e => sameKey e.1 entry.1 then
    entries.map fun e => if sameKey e.1 entry.1 then (e.1, entry.2) else e
  else entries ++ [entry]

/-- The entries of a mapping node with its merge keys worked in: those of the merged mappings come
first, of several in a sequence the first one's last. -/
def flatEntries : (fuel : Nat) → List (Node × Node) → Except Fault (List (Node × Node))
  | 0, _ => .error .malformed
  | fuel + 1, entries => do
    let merged ← (entries.filter (·.1.isMerge)).mapM fun entry =>
      match entry.2 with
      | .mapping _ inner => flatEntries fuel inner
      | .sequence _ items => do
        let inner ← items.mapM fun item =>
          match item with
          | .mapping _ inner => flatEntries fuel inner
          | _ => .error .malformed
        .ok inner.reverse.flatten
      | .scalar .. => .error .malformed
    .ok (merged.flatten ++ entries.filter (!·.1.isMerge))

/-- The value of a key; the key `=` is a text. -/
def keyNode : Node → Node
  | .scalar tag plain text =>
    if formOf? tag plain text = some .default then .scalar none false text
    else .scalar tag plain text
  | n => n

mutual

def valueOf : (fuel : Nat) → Node → Except Fault Datum
  | 0, _ => .error .malformed
  | _ + 1, .scalar tag plain text =>
    match formOf? tag plain text with
    | some form => scalarValue form text
    | none =>
      if tag = some (coreTags ++ "binary") then (binaryValue [] 0 text.toList).map .bytes
      else .error .malformed
  | fuel + 1, .sequence tag items =>
    match tag with
    | none => (listOf fuel items).map .list
    | some t =>
      if t = coreTags ++ "seq" then (listOf fuel items).map .list
      else if t = coreTags ++ "omap" || t = coreTags ++ "pairs" then (pairsOf fuel items).map .list
      else .error .malformed
  | fuel + 1, .mapping tag entries =>
    match tag with
    | none => mapOf fuel entries
    | some t =>
      if t = coreTags ++ "map" then mapOf fuel entries
      else if t = coreTags ++ "set" then do
        match ← mapOf fuel entries with
        | .map found => .ok (.set (found.map Prod.fst))
        | other => .ok other
      else match Node.scalarText? (fuel + 1) (.mapping tag entries) with
        | some text => defaultValue t text
        | none => .error .malformed

def listOf : (fuel : Nat) → List Node → Except Fault (List Datum)
  | 0, _ => .error .malformed
  | _ + 1, [] => .ok []
  | fuel + 1, n :: rest => do
    let d ← valueOf fuel n
    let more ← listOf fuel rest
    .ok (d :: more)

/-- The values of mappings of one entry each, as pairs. -/
def pairsOf : (fuel : Nat) → List Node → Except Fault (List Datum)
  | 0, _ => .error .malformed
  | _ + 1, [] => .ok []
  | fuel + 1, .mapping _ [(k, v)] :: rest => do
    let k ← valueOf fuel k
    let v ← valueOf fuel v
    let more ← pairsOf fuel rest
    .ok (.list [k, v] :: more)
  | _ + 1, _ => .error .malformed

def mapOf : (fuel : Nat) → List (Node × Node) → Except Fault Datum
  | 0, _ => .error .malformed
  | fuel + 1, entries => do
    let entries ← flatEntries fuel entries
    let found ← entriesOf fuel entries
    .ok (.map (found.foldl putEntry []))

/-- The keys and values of entries in order. -/
def entriesOf : (fuel : Nat) → List (Node × Node) → Except Fault (List (Datum × Datum))
  | 0, _ => .error .malformed
  | _ + 1, [] => .ok []
  | fuel + 1, (k, v) :: rest => do
    let k ← valueOf fuel (keyNode k)
    if !isKey k then throw .malformed
    let v ← valueOf fuel v
    let more ← entriesOf fuel rest
    .ok ((k, v) :: more)

end

mutual

def Node.size : Node → Nat
  | .scalar .. => 1
  | .sequence _ items => 1 + sizeItems items
  | .mapping _ entries => 1 + sizeEntries entries

/-- The number of nodes in a list of nodes, each counted with the place it takes. -/
def Node.sizeItems : List Node → Nat
  | [] => 1
  | n :: rest => 1 + n.size + sizeItems rest

/-- The number of nodes in entries, each counted with the place it takes. -/
def Node.sizeEntries : List (Node × Node) → Nat
  | [] => 1
  | (k, v) :: rest => 1 + k.size + v.size + sizeEntries rest

end

/-! Of several faults the one counts that lies least deep: collections are begun empty, and filled
when all that stands beside them has been begun. -/

/-- Begins a value. A collection is left for later. -/
def begun (fuel : Nat) (n : Node) : Except Fault (List Node) :=
  match n with
  | .scalar .. => (valueOf fuel n).map fun _ => []
  | .sequence tag _ =>
    if tag.all fun t => ["seq", "omap", "pairs"].any fun kind => t = coreTags ++ kind then .ok [n]
    else .error .malformed
  | .mapping tag _ =>
    if tag.all fun t => ["map", "set"].any fun kind => t = coreTags ++ kind then .ok [n]
    else (valueOf fuel n).map fun _ => []

/-- Fills a collection: what is left for later of its contents. -/
def filled (fuel : Nat) : Node → Except Fault (List Node)
  | .scalar .. => .ok []
  | .sequence tag items =>
    if tag.all (· = coreTags ++ "seq") then (items.mapM (begun fuel)).map List.flatten
    else (items.mapM pair).map List.flatten
  | .mapping _ entries => do
    let later ← (← flatEntries fuel entries).mapM fun (k, v) => do
      if !(← begun fuel (keyNode k)).isEmpty then throw .malformed
      begun fuel v
    return later.flatten
where
  /-- Begins the key and the value of a mapping of one entry. -/
  pair : Node → Except Fault (List Node)
    | .mapping _ [(k, v)] => do return (← begun fuel k) ++ (← begun fuel v)
    | _ => .error .malformed

/-- Fills collections level by level, up to the first fault. -/
def fill (fuel : Nat) : (depth : Nat) → List Node → Except Fault Unit
  | 0, _ | _, [] => .ok ⟨⟩
  | depth + 1, level => do fill fuel depth (← level.mapM (filled fuel)).flatten

/-- Reads the YAML document in a text; no document is nothing. -/
def read (text : List Char) : Except Fault Datum := do
  match ← (Node.ofText text).mapError .ofSyntax with
  | none => .ok .null
  | some n =>
    let fuel := 4 * n.size + 8
    fill fuel fuel (← begun fuel n)
    valueOf fuel n

end LineShell.Yaml
