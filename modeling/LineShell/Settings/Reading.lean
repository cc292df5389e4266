import LineShell.Datum
import LineShell.Settings

/-!
Reading settings from dynamic values. A value of another kind is converted where nothing is lost by
it; otherwise it is a problem, and all problems are reported, each with its place.
-/

namespace LineShell.Settings

/-- Why a value is no value of a setting. -/
inductive Problem where
  | textWanted
  | textUnreadable
  | wholeWanted
  | wholeUnreadable
  | wholeTooLong
  | hasFraction
  | notFinite
  | truthWanted
  | truthUnreadable
  | sectionWanted
  | unknownKey
  deriving DecidableEq, Repr

def Problem.word : Problem → String
  | textWanted => "string_type"
  | textUnreadable => "string_unicode"
  | wholeWanted => "int_type"
  | wholeUnreadable => "int_parsing"
  | wholeTooLong => "int_parsing_size"
  | hasFraction => "int_from_float"
  | notFinite => "finite_number"
  | truthWanted => "bool_type"
  | truthUnreadable => "bool_parsing"
  | sectionWanted => "model_type"
  | unknownKey => "extra_forbidden"

structure Complaint where
  place : List String
  problem : Problem
  deriving DecidableEq, Repr

def Complaint.text (c : Complaint) : String :=
  ".".intercalate c.place ++ ": " ++ c.problem.word

def complaintsText (cs : List Complaint) : String :=
  "; ".intercalate (cs.map Complaint.text)

/-- A text is taken as it is; bytes are taken as UTF-8. -/
def textOf : Datum → Except Problem String
  | .text s => .ok s
  | .bytes bytes =>
    match Text.Utf8.decodeStrict bytes with
    | .ok s => .ok (String.ofList s)
    | .error _ => .error .textUnreadable
  | _ => .error .textWanted

/-- The text that a text or bytes hold. -/
def characters? : Datum → Option (List Char)
  | .text s => some s.toList
  | .bytes bytes => (Text.Utf8.decodeStrict bytes).toOption
  | _ => none

/-- White space around a number. -/
def isPadding (c : Char) : Bool :=
  Text.isBlank c && !(28 ≤ c.toNat && c.toNat ≤ 31)

/-- Drops a fraction of zeros only. -/
def dropZeroFraction (s : List Char) : List Char :=
  match s.dropWhile (· ≠ '.') with
  | '.' :: '0' :: zeros => if zeros.all (· = '0') then s.takeWhile (· ≠ '.') else s
  | _ => s

/-- The most characters that a whole number may have. -/
def longestNumeral : Nat := 4300

/-- Reads a whole number from a text: digits of ASCII with single underscores, a sign before them,
a fraction of zeros behind them, and white space around. -/
def wholeOfText (s : List Char) : Except Problem Int :=
  let s := Text.dropRight isPadding (s.dropWhile isPadding)
  let signed := match s with
    | '+' :: '-' :: _ => []
    | '+' :: rest => rest
    | s => s
  let body := dropZeroFraction signed
  let (negative, digits) := match body with
    | '-' :: digits => (true, digits)
    | digits => (false, digits)
  if !(digits.all fun c => c.isDigit || c = '_') then .error .wholeUnreadable
  else match Text.magnitude? 10 digits with
    | none => .error .wholeUnreadable
    | some n =>
      if digits.length > longestNumeral then .error .wholeTooLong
      else .ok (if negative then -n else n)

def fitsWord (n : Int) : Bool := -0x8000000000000000 ≤ n && n < 0x8000000000000000

/-- A number with a point stands for a whole number if it is one, of 64 bits. -/
def wholeOfFloat (f : Float) : Except Problem Int :=
  if f.isNaN || f.isInf then .error .notFinite
  else if f.floor != f then .error .hasFraction
  else if f.abs < 9223372036854775808.0 then .ok f.toInt64.toInt
  else .error .wholeTooLong

/-- A whole number, or what stands for one. -/
def wholeOf (d : Datum) : Except Problem Int :=
  match d with
  | .int n => .ok n
  | .bool b => .ok (if b then 1 else 0)
  | .decimal x => wholeOfFloat x.toFloat
  | _ =>
    match characters? d with
    | some s => wholeOfText s
    | none => .error .wholeWanted

/-- The words for a truth value, in any case. -/
def truthWords : List (String × Bool) :=
  [("0", false), ("f", false), ("n", false), ("no", false), ("off", false), ("false", false),
    ("1", true), ("t", true), ("y", true), ("yes", true), ("on", true), ("true", true)]

/-- Zero and one are truth values. -/
def truthOfWhole (n : Int) : Except Problem Bool :=
  if n = 0 then .ok false else if n = 1 then .ok true else .error .truthUnreadable

/-- A truth value, or what stands for one. -/
def truthOf (d : Datum) : Except Problem Bool :=
  match d with
  | .bool b => .ok b
  | .int n => if fitsWord n then truthOfWhole n else .error .truthWanted
  | .decimal x =>
    match wholeOfFloat x.toFloat with
    | .ok n => truthOfWhole n
    | .error _ => .error .truthWanted
  | _ =>
    match characters? d with
    | some s =>
      match truthWords.lookup (String.ofList (s.map Char.toLower)) with
      | some b => .ok b
      | none => .error .truthUnreadable
    | none => .error .truthWanted

/-- Settings as they are written: names and values in order. -/
abbrev Entries := List (Datum × Datum)

def valueOf? (entries : Entries) (name : String) : Option Datum :=
  (entries.find? fun e => match e.1 with
    | .text key => key = name
    | _ => false).map Prod.snd

/-- Reads one setting; without an entry it keeps its default. -/
def field {α : Type} (name : String) (read : Datum → Except Problem α) (default : α)
    (entries : Entries) : α × List Complaint :=
  match valueOf? entries name with
  | none => (default, [])
  | some d =>
    match read d with
    | .ok value => (value, [])
    | .error problem => (default, [⟨[name], problem⟩])

/-- Reads the section of the line editor. Entries with other names count for nothing. -/
def shellSection (default : ShellSettings) (entries : Entries) : ShellSettings × List Complaint :=
  let (prompt, c₁) := field "prompt" textOf default.prompt entries
  let (historyFile, c₂) := field "history_file" textOf default.historyFile entries
  let (historyLength, c₃) := field "history_length" wholeOf default.historyLength entries
  let (eraseEmptyLine, c₄) := field "erase_empty_line" truthOf default.eraseEmptyLine entries
  let (colours, c₅) := field "colors" truthOf default.colours entries
  ({ prompt, historyFile, historyLength, eraseEmptyLine, colours }, c₁ ++ c₂ ++ c₃ ++ c₄ ++ c₅)

/-- Reads the section of the log. Entries with other names count for nothing. -/
def logSection (default : LogSettings) (entries : Entries) : LogSettings × List Complaint :=
  let (level, c₁) := field "level" textOf default.level entries
  let (format, c₂) := field "format" textOf default.format entries
  ({ level, format }, c₁ ++ c₂)

/-- The complaint as one about a section of that name. -/
def Complaint.within (name : String) (c : Complaint) : Complaint :=
  { c with place := name :: c.place }

/-- Reads a section, if there is an entry for it. -/
def readSection {α : Type} (name : String) (read : α → Entries → α × List Complaint) (default : α)
    (value : Option Datum) : α × List Complaint :=
  match value with
  | none => (default, [])
  | some (.map entries) =>
    let (settings, complaints) := read default entries
    (settings, complaints.map (·.within name))
  | some _ => (default, [⟨[name], .sectionWanted⟩])

/-- The names of the sections. -/
def sectionNames : List String := ["shell", "logging"]

/-- Reads all settings, or says what is wrong: first in the sections, then names that are none. -/
def ofEntries (default : Settings) (entries : Entries) : Except (List Complaint) Settings :=
  let (shell, c₁) := readSection "shell" shellSection default.shell (valueOf? entries "shell")
  let (log, c₂) := readSection "logging" logSection default.log (valueOf? entries "logging")
  let unknown := entries.filterMap fun e => match e.1 with
    | .text key => if sectionNames.contains key then none else some (Complaint.mk [key] .unknownKey)
    | _ => none
  let complaints := c₁ ++ c₂ ++ unknown
  if complaints.isEmpty then .ok ⟨shell, log⟩ else .error complaints

end LineShell.Settings
