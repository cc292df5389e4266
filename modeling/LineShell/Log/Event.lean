import LineShell.Json.Writer
import LineShell.Log.LineCutter
import LineShell.Settings

/-!
Log events: a level, a message and named values. Events below the threshold are dropped; the others
are written as aligned text or as JSON objects, and what is written is cut into lines.
-/

namespace LineShell.Log

inductive Level where
  | debug
  | info
  | warning
  | error
  | critical
  deriving DecidableEq, Repr

namespace Level

def name : Level → String
  | debug => "debug"
  | info => "info"
  | warning => "warning"
  | error => "error"
  | critical => "critical"

def rank : Level → Nat
  | debug => 10
  | info => 20
  | warning => 30
  | error => 40
  | critical => 50

end Level

/-- The ranks that can be named as a threshold. -/
def thresholds : List (String × Nat) :=
  [("NOTSET", 0), ("DEBUG", 10), ("INFO", 20), ("WARN", 30), ("WARNING", 30), ("ERROR", 40),
    ("FATAL", 50), ("CRITICAL", 50)]

/-- A letter in upper case, as far as what can be named as a threshold holds it. -/
def upper (c : Char) : List Char :=
  if c = 'ı' then ['I']
  else if c = 'ſ' then ['S']
  else if c = 'ﬅ' || c = 'ﬆ' then ['S', 'T']
  else [c.toUpper]

/-- The name under which a threshold is looked up. -/
def levelName (name : String) : String :=
  String.ofList (name.toList.flatMap upper)

/-- The rank below which events are dropped; that of warnings if the name is unknown. -/
def threshold (name : String) : Nat :=
  (thresholds.lookup (levelName name)).getD Level.warning.rank

/-- What can be named like a rank and is none. -/
inductive LevelFault where
  | text (value : String)
  | table
  deriving DecidableEq, Repr

/-- The names beside those of the ranks under which something is found. -/
def noRanks : List (String × LevelFault) :=
  [("BASIC_FORMAT", .text "%(levelname)s:%(name)s:%(message)s"), ("_STYLES", .table)]

/-- What is found under the name of a level in place of a rank. -/
def levelFault (name : String) : Option LevelFault := noRanks.lookup (levelName name)

structure Event where
  level : Level
  message : String
  fields : List (String × Datum) := []
  deriving Repr

namespace Event

/-- The form of a value in aligned text: a text is quoted if it holds a space or a quote, or what
could be taken for the end of the field. -/
def fieldText : Datum → String
  | .text s => if s.toList.any " \t=\r\n\"'".toList.contains then Text.quoted s else s
  | other => other.shown

/-- The names that stand in columns of their own. -/
def columnNames : List String := ["timestamp", "level", "event"]

/-- The event as aligned text, its fields sorted by name. -/
def console (time : String) (e : Event) : String :=
  let named :=
    (e.fields.filter fun f => !columnNames.contains f.1).mergeSort fun a b => decide (a.1 ≤ b.1)
  let parts := [time, "[" ++ Text.padRight 9 e.level.name ++ "]", Text.padRight 30 e.message] ++
    named.map fun f => f.1 ++ "=" ++ fieldText f.2
  String.ofList (Text.dropRight (· = ' ') (" ".intercalate parts).toList)

/-- Sets a field; one that is there keeps its place. -/
def setField (fields : List (String × Datum)) (name : String) (value : Datum) :
    List (String × Datum) :=
  if fields.any fun f => f.1 = name then
    fields.map fun f => if f.1 = name then (name, value) else f
  else fields ++ [(name, value)]

/-- The event as a JSON object: its fields in order, then message, level and time. -/
def json (time : String) (e : Event) : String :=
  let fields := setField (setField (setField e.fields "event" (.text e.message)) "level"
    (.text e.level.name)) "timestamp" (.text time)
  Json.write (.map (fields.map fun f => (.text f.1, f.2)))

end Event

structure Format where
  threshold : Nat
  aligned : Bool
  deriving DecidableEq, Repr

/-- How the settings want events written. -/
def Format.ofSettings (s : LogSettings) : Format :=
  ⟨Log.threshold s.level, s.format = "console"⟩

/-- The lines that an event makes; none if it is dropped. -/
def Format.linesOf (f : Format) (time : String) (e : Event) : List String :=
  if e.level.rank < f.threshold then []
  else Log.linesOf (if f.aligned then e.console time else e.json time)

end LineShell.Log
