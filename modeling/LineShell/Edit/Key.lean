import LineShell.Text.Digit

/-!
Keys and the character sequences that terminals send for them. A character in no sequence is a
literal key. Besides the table there are two open-ended families, both reports that begin with
`ESC [`: cursor positions and mouse events.
-/

namespace LineShell.Edit

/-- A key. Keys that the editor does nothing with are told apart by their names. -/
inductive Key where
  | literal (c : Char)
  | carriageReturn
  | lineFeed
  /-- Deletes to the right, or ends the input on an empty line. -/
  | controlD
  | tab
  | backspace
  | delete
  | lineStart
  | lineEnd
  | left
  | right
  | killAfter
  | killBefore
  | killWord
  | older
  | newer
  /-- The terminal is about to send pasted text. -/
  | pasteStart
  | pasted (content : List Char)
  | other (name : String)
  deriving DecidableEq, Repr

namespace Key

/-- The character that opens every longer sequence. -/
def escape : Char := '\x1b'

/-- A sequence that begins with `ESC [`. -/
def csi (s : List Char) : List Char := escape :: '[' :: s

/-- A sequence that begins with `ESC O`. -/
def ss3 (s : List Char) : List Char := escape :: 'O' :: s

/-- The keys of the table, each with the sequences that terminals send for it. Some sequences stand
for two keys in a row. -/
def table : List (List Key × List (List Char)) := [
  ([.other "c-@"], [['\x00']]),
  ([.lineStart], [['\x01']]),
  ([.left], [['\x02']]),
  ([.other "c-c"], [['\x03']]),
  ([.controlD], [['\x04']]),
  ([.lineEnd], [['\x05']]),
  ([.right], [['\x06']]),
  ([.other "c-g"], [['\x07']]),
  ([.backspace], [['\x08'], ['\x7f']]),
  ([.tab], [['\x09']]),
  ([.lineFeed], [['\x0a']]),
  ([.killAfter], [['\x0b']]),
  ([.other "c-l"], [['\x0c']]),
  ([.carriageReturn], [['\x0d'], csi ['2', '7', ';', '2', ';', '1', '3', '~'],
    csi ['2', '7', ';', '5', ';', '1', '3', '~'], csi ['2', '7', ';', '6', ';', '1', '3', '~']]),
  ([.newer], [['\x0e']]),
  ([.other "c-o"], [['\x0f']]),
  ([.older], [['\x10']]),
  ([.other "c-q"], [['\x11']]),
  ([.other "c-r"], [['\x12']]),
  ([.other "c-s"], [['\x13']]),
  ([.other "c-t"], [['\x14']]),
  ([.killBefore], [['\x15']]),
  ([.other "c-v"], [['\x16']]),
  ([.killWord], [['\x17']]),
  ([.other "c-x"], [['\x18']]),
  ([.other "c-y"], [['\x19']]),
  ([.other "c-z"], [['\x1a']]),
  ([.other "escape"], [['\x1b']]),
  ([.other "s-escape"], [['\x9b']]),
  ([.other "c-\\"], [['\x1c']]),
  ([.other "c-]"], [['\x1d']]),
  ([.other "c-^"], [['\x1e']]),
  ([.other "c-_"], [['\x1f']]),
  ([.lineStart], [csi ['1', '~'], csi ['7', '~'], csi ['H'], ss3 ['H']]),
  ([.other "insert"], [csi ['2', '~']]),
  ([.delete], [csi ['3', '~']]),
  ([.lineEnd], [csi ['4', '~'], csi ['8', '~'], csi ['F'], ss3 ['F']]),
  ([.other "pageup"], [csi ['5', '~']]),
  ([.other "pagedown"], [csi ['6', '~']]),
  ([.other "s-tab"], [csi ['Z'], ['\x1b', '\x09'], csi ['~']]),
  ([.other "f1"], [ss3 ['P'], csi ['[', 'A'], csi ['1', '1', '~']]),
  ([.other "f2"], [ss3 ['Q'], csi ['[', 'B'], csi ['1', '2', '~']]),
  ([.other "f3"], [ss3 ['R'], csi ['[', 'C'], csi ['1', '3', '~']]),
  ([.other "f4"], [ss3 ['S'], csi ['[', 'D'], csi ['1', '4', '~']]),
  ([.other "f5"], [csi ['[', 'E'], csi ['1', '5', '~']]),
  ([.other "f6"], [csi ['1', '7', '~']]),
  ([.other "f7"], [csi ['1', '8', '~']]),
  ([.other "f8"], [csi ['1', '9', '~']]),
  ([.other "f9"], [csi ['2', '0', '~']]),
  ([.other "f10"], [csi ['2', '1', '~']]),
  ([.other "f11"], [csi ['2', '3', '~']]),
  ([.other "f12"], [csi ['2', '4', '~']]),
  ([.other "f13"], [csi ['2', '5', '~'], csi ['1', ';', '2', 'P']]),
  ([.other "f14"], [csi ['2', '6', '~'], csi ['1', ';', '2', 'Q']]),
  ([.other "f15"], [csi ['2', '8', '~']]),
  ([.other "f16"], [csi ['2', '9', '~'], csi ['1', ';', '2', 'S']]),
  ([.other "f17"], [csi ['3', '1', '~'], csi ['1', '5', ';', '2', '~']]),
  ([.other "f18"], [csi ['3', '2', '~'], csi ['1', '7', ';', '2', '~']]),
  ([.other "f19"], [csi ['3', '3', '~'], csi ['1', '8', ';', '2', '~']]),
  ([.other "f20"], [csi ['3', '4', '~'], csi ['1', '9', ';', '2', '~']]),
  ([.other "f21"], [csi ['2', '0', ';', '2', '~']]),
  ([.other "f22"], [csi ['2', '1', ';', '2', '~']]),
  ([.other "f23"], [csi ['2', '3', ';', '2', '~']]),
  ([.other "f24"], [csi ['2', '4', ';', '2', '~']]),
  ([.other "c-f1"], [csi ['1', ';', '5', 'P']]),
  ([.other "c-f2"], [csi ['1', ';', '5', 'Q']]),
  ([.other "c-f4"], [csi ['1', ';', '5', 'S']]),
  ([.other "c-f5"], [csi ['1', '5', ';', '5', '~']]),
  ([.other "c-f6"], [csi ['1', '7', ';', '5', '~']]),
  ([.other "c-f7"], [csi ['1', '8', ';', '5', '~']]),
  ([.other "c-f8"], [csi ['1', '9', ';', '5', '~']]),
  ([.other "c-f9"], [csi ['2', '0', ';', '5', '~']]),
  ([.other "c-f10"], [csi ['2', '1', ';', '5', '~']]),
  ([.other "c-f11"], [csi ['2', '3', ';', '5', '~']]),
  ([.other "c-f12"], [csi ['2', '4', ';', '5', '~']]),
  ([.other "c-f13"], [csi ['1', ';', '6', 'P']]),
  ([.other "c-f14"], [csi ['1', ';', '6', 'Q']]),
  ([.other "c-f16"], [csi ['1', ';', '6', 'S']]),
  ([.other "c-f17"], [csi ['1', '5', ';', '6', '~']]),
  ([.other "c-f18"], [csi ['1', '7', ';', '6', '~']]),
  ([.other "c-f19"], [csi ['1', '8', ';', '6', '~']]),
  ([.other "c-f20"], [csi ['1', '9', ';', '6', '~']]),
  ([.other "c-f21"], [csi ['2', '0', ';', '6', '~']]),
  ([.other "c-f22"], [csi ['2', '1', ';', '6', '~']]),
  ([.other "c-f23"], [csi ['2', '3', ';', '6', '~']]),
  ([.other "c-f24"], [csi ['2', '4', ';', '6', '~']]),
  ([.other "<scroll-up>"], [csi ['6', '2', '~']]),
  ([.other "<scroll-down>"], [csi ['6', '3', '~']]),
  ([.pasteStart], [csi ['2', '0', '0', '~']]),
  ([.other "<ignore>"], [csi ['E'], csi ['G']]),
  ([.other "s-delete"], [csi ['3', ';', '2', '~']]),
  ([.other "s-pageup"], [csi ['5', ';', '2', '~']]),
  ([.other "s-pagedown"], [csi ['6', ';', '2', '~']]),
  ([.other "escape", .other "insert"], [csi ['2', ';', '3', '~']]),
  ([.other "escape", .delete], [csi ['3', ';', '3', '~']]),
  ([.other "escape", .other "pageup"], [csi ['5', ';', '3', '~']]),
  ([.other "escape", .other "pagedown"], [csi ['6', ';', '3', '~']]),
  ([.other "escape", .other "s-insert"], [csi ['2', ';', '4', '~']]),
  ([.other "escape", .other "s-delete"], [csi ['3', ';', '4', '~']]),
  ([.other "escape", .other "s-pageup"], [csi ['5', ';', '4', '~']]),
  ([.other "escape", .other "s-pagedown"], [csi ['6', ';', '4', '~']]),
  ([.other "c-delete"], [csi ['3', ';', '5', '~']]),
  ([.other "c-pageup"], [csi ['5', ';', '5', '~']]),
  ([.other "c-pagedown"], [csi ['6', ';', '5', '~']]),
  ([.other "c-s-delete"], [csi ['3', ';', '6', '~']]),
  ([.other "c-s-pageup"], [csi ['5', ';', '6', '~']]),
  ([.other "c-s-pagedown"], [csi ['6', ';', '6', '~']]),
  ([.other "escape", .other "c-insert"], [csi ['2', ';', '7', '~']]),
  ([.other "escape", .other "c-pagedown"], [csi ['5', ';', '7', '~'], csi ['6', ';', '7', '~']]),
  ([.other "escape", .other "c-s-insert"], [csi ['2', ';', '8', '~']]),
  ([.other "escape", .other "c-s-pagedown"], [csi ['5', ';', '8', '~'], csi ['6', ';', '8', '~']]),
  ([.older], [csi ['A'], ss3 ['A']]),
  ([.newer], [csi ['B'], ss3 ['B']]),
  ([.right], [csi ['C'], ss3 ['C']]),
  ([.left], [csi ['D'], ss3 ['D']]),
  ([.other "s-up"], [csi ['1', ';', '2', 'A']]),
  ([.other "s-down"], [csi ['1', ';', '2', 'B']]),
  ([.other "s-right"], [csi ['1', ';', '2', 'C']]),
  ([.other "s-left"], [csi ['1', ';', '2', 'D']]),
  ([.other "s-end"], [csi ['1', ';', '2', 'F']]),
  ([.other "s-home"], [csi ['1', ';', '2', 'H']]),
  ([.other "escape", .older], [csi ['1', ';', '3', 'A'], csi ['1', ';', '9', 'A']]),
  ([.other "escape", .newer], [csi ['1', ';', '3', 'B'], csi ['1', ';', '9', 'B']]),
  ([.other "escape", .right], [csi ['1', ';', '3', 'C'], csi ['1', ';', '9', 'C']]),
  ([.other "escape", .left], [csi ['1', ';', '3', 'D'], csi ['1', ';', '9', 'D']]),
  ([.other "escape", .lineEnd], [csi ['1', ';', '3', 'F']]),
  ([.other "escape", .lineStart], [csi ['1', ';', '3', 'H']]),
  ([.other "escape", .other "s-down"], [csi ['1', ';', '4', 'A']]),
  ([.other "escape", .other "s-up"], [csi ['1', ';', '4', 'B']]),
  ([.other "escape", .other "s-right"], [csi ['1', ';', '4', 'C']]),
  ([.other "escape", .other "s-left"], [csi ['1', ';', '4', 'D']]),
  ([.other "escape", .other "s-end"], [csi ['1', ';', '4', 'F']]),
  ([.other "escape", .other "s-home"], [csi ['1', ';', '4', 'H']]),
  ([.other "c-up"], [csi ['1', ';', '5', 'A'], csi ['5', 'A']]),
  ([.other "c-down"], [csi ['1', ';', '5', 'B'], csi ['5', 'B']]),
  ([.other "c-right"], [csi ['1', ';', '5', 'C'], csi ['5', 'C'], ss3 ['c']]),
  ([.other "c-left"], [csi ['1', ';', '5', 'D'], csi ['5', 'D'], ss3 ['d']]),
  ([.other "c-end"], [csi ['1', ';', '5', 'F']]),
  ([.other "c-home"], [csi ['1', ';', '5', 'H']]),
  ([.other "c-s-down"], [csi ['1', ';', '6', 'A']]),
  ([.other "c-s-up"], [csi ['1', ';', '6', 'B']]),
  ([.other "c-s-right"], [csi ['1', ';', '6', 'C']]),
  ([.other "c-s-left"], [csi ['1', ';', '6', 'D']]),
  ([.other "c-s-end"], [csi ['1', ';', '6', 'F']]),
  ([.other "c-s-home"], [csi ['1', ';', '6', 'H']]),
  ([.other "escape", .other "c-down"], [csi ['1', ';', '7', 'A']]),
  ([.other "escape", .other "c-up"], [csi ['1', ';', '7', 'B']]),
  ([.other "escape", .other "c-right"], [csi ['1', ';', '7', 'C']]),
  ([.other "escape", .other "c-left"], [csi ['1', ';', '7', 'D']]),
  ([.other "escape", .other "c-end"], [csi ['1', ';', '7', 'F']]),
  ([.other "escape", .other "c-home"], [csi ['1', ';', '7', 'H']]),
  ([.other "escape", .other "c-s-down"], [csi ['1', ';', '8', 'A']]),
  ([.other "escape", .other "c-s-up"], [csi ['1', ';', '8', 'B']]),
  ([.other "escape", .other "c-s-right"], [csi ['1', ';', '8', 'C']]),
  ([.other "escape", .other "c-s-left"], [csi ['1', ';', '8', 'D']]),
  ([.other "escape", .other "c-s-end"], [csi ['1', ';', '8', 'F']]),
  ([.other "escape", .other "c-s-home"], [csi ['1', ';', '8', 'H']]),
  ([.other "c-0"], [csi ['1', ';', '5', 'p']]),
  ([.other "c-1"], [csi ['1', ';', '5', 'q']]),
  ([.other "c-2"], [csi ['1', ';', '5', 'r']]),
  ([.other "c-3"], [csi ['1', ';', '5', 's']]),
  ([.other "c-4"], [csi ['1', ';', '5', 't']]),
  ([.other "c-5"], [csi ['1', ';', '5', 'u']]),
  ([.other "c-6"], [csi ['1', ';', '5', 'v']]),
  ([.other "c-7"], [csi ['1', ';', '5', 'w']]),
  ([.other "c-8"], [csi ['1', ';', '5', 'x']]),
  ([.other "c-9"], [csi ['1', ';', '5', 'y']]),
  ([.other "c-s-0"], [csi ['1', ';', '6', 'p']]),
  ([.other "c-s-1"], [csi ['1', ';', '6', 'q']]),
  ([.other "c-s-2"], [csi ['1', ';', '6', 'r']]),
  ([.other "c-s-3"], [csi ['1', ';', '6', 's']]),
  ([.other "c-s-4"], [csi ['1', ';', '6', 't']]),
  ([.other "c-s-5"], [csi ['1', ';', '6', 'u']]),
  ([.other "c-s-6"], [csi ['1', ';', '6', 'v']]),
  ([.other "c-s-7"], [csi ['1', ';', '6', 'w']]),
  ([.other "c-s-8"], [csi ['1', ';', '6', 'x']]),
  ([.other "c-s-9"], [csi ['1', ';', '6', 'y']]),
  ([.other "escape", .other "c-0"], [csi ['1', ';', '7', 'p']]),
  ([.other "escape", .other "c-1"], [csi ['1', ';', '7', 'q']]),
  ([.other "escape", .other "c-2"], [csi ['1', ';', '7', 'r']]),
  ([.other "escape", .other "c-3"], [csi ['1', ';', '7', 's']]),
  ([.other "escape", .other "c-4"], [csi ['1', ';', '7', 't']]),
  ([.other "escape", .other "c-5"], [csi ['1', ';', '7', 'u']]),
  ([.other "escape", .other "c-6"], [csi ['1', ';', '7', 'v']]),
  ([.other "escape", .other "c-7"], [csi ['1', ';', '7', 'w']]),
  ([.other "escape", .other "c-8"], [csi ['1', ';', '7', 'x']]),
  ([.other "escape", .other "c-9"], [csi ['1', ';', '7', 'y']]),
  ([.other "escape", .other "c-s-0"], [csi ['1', ';', '8', 'p']]),
  ([.other "escape", .other "c-s-1"], [csi ['1', ';', '8', 'q']]),
  ([.other "escape", .other "c-s-2"], [csi ['1', ';', '8', 'r']]),
  ([.other "escape", .other "c-s-3"], [csi ['1', ';', '8', 's']]),
  ([.other "escape", .other "c-s-4"], [csi ['1', ';', '8', 't']]),
  ([.other "escape", .other "c-s-5"], [csi ['1', ';', '8', 'u']]),
  ([.other "escape", .other "c-s-6"], [csi ['1', ';', '8', 'v']]),
  ([.other "escape", .other "c-s-7"], [csi ['1', ';', '8', 'w']]),
  ([.other "escape", .other "c-s-8"], [csi ['1', ';', '8', 'x']]),
  ([.other "escape", .other "c-s-9"], [csi ['1', ';', '8', 'y']])]

def sequences : List (List Char × List Key) :=
  table.flatMap fun (keys, sequences) => sequences.map fun s => (s, keys)

/-- A digit or semicolon, as in the parameters of a report. -/
def isParameter (c : Char) : Bool :=
  c = ';' || Text.isDecimal c

/-- The parameters of a cursor position: two numbers with a semicolon between them. -/
def isPosition (s : List Char) : Bool :=
  match s.dropWhile Text.isDecimal with
  | ';' :: column =>
    !(s.takeWhile Text.isDecimal).isEmpty && !column.isEmpty && column.all Text.isDecimal
  | _ => false

def isPositionReport (s : List Char) : Bool :=
  match s with
  | '\x1b' :: '[' :: body => body.getLast? = some 'R' && isPosition body.dropLast
  | _ => false

/-- The body of a report without the mark of extended mouse events. -/
def parameters (body : List Char) : List Char :=
  if body.head? = some '<' then body.tail else body

/-- Three characters behind an `M`, none of them a line feed. -/
def isPlainMouseEvent : List Char → Bool
  | ['M', a, b, c] => a ≠ '\n' && b ≠ '\n' && c ≠ '\n'
  | _ => false

/-- At least one parameter character before a final `m` or `M`. -/
def isMouseEvent (s : List Char) : Bool :=
  (s.getLast? = some 'm' || s.getLast? = some 'M') && 2 ≤ s.length && s.dropLast.all isParameter

def isMouseReport (s : List Char) : Bool :=
  match s with
  | '\x1b' :: '[' :: body => isPlainMouseEvent body || isMouseEvent (parameters body)
  | _ => false

/-- The beginning of a report that further characters may complete. -/
def isReportStart (s : List Char) : Bool :=
  match s with
  | '\x1b' :: '[' :: body =>
    (parameters body).all isParameter ||
    (match body with
      | 'M' :: rest => rest.length ≤ 2 && rest.all (· ≠ '\n')
      | _ => false)
  | _ => false

/-- The keys that a character sequence stands for. -/
def ofSequence? (s : List Char) : Option (List Key) :=
  if isPositionReport s then some [.other "<cursor-position-response>"]
  else if isMouseReport s then some [.other "<vt100-mouse-event>"]
  else (sequences.find? fun entry => entry.1 = s).map Prod.snd

/-- Further characters may make the sequence one that stands for keys. -/
def isOpen (s : List Char) : Bool :=
  isReportStart s || sequences.any fun entry => s.isPrefixOf entry.1 && s ≠ entry.1

end Key

end LineShell.Edit
