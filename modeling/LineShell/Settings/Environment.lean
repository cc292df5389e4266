import LineShell.Json.Reader
import LineShell.Settings.Reading

/-!
Settings in the environment, and their union with those of a file. A variable sets a whole section,
as a JSON object, or one setting, its name being that of the section and that of the setting with
two underscores between them. Where two sources set one setting, the file wins.
-/

namespace LineShell.Settings

/-- Puts an entry; a name that is there keeps its place and gets the new value. -/
def put (entries : Entries) (name : String) (value : Datum) : Entries :=
  if (valueOf? entries name).isSome then
    entries.map fun e => match e.1 with
      | .text key => if key = name then (e.1, value) else e
      | _ => e
  else entries ++ [(.text name, value)]

mutual

/-- What stands at a name of a union: of two groups their union, or else the upper value. -/
def joined (lower : Option Datum) : (upper : Datum) → Datum
  | .map more =>
    match lower with
    | some (.map inner) => .map (union inner more)
    | _ => .map more
  | value => value

/-- The union of two groups of entries, setting by setting. Those of `upper` win. -/
def union (lower : Entries) : (upper : Entries) → Entries
  | [] => lower
  | (key, value) :: rest =>
    union (put lower key.plain (joined (valueOf? lower key.plain) value)) rest

end

/-- Puts a value at the end of a path of names. A value that stands in the way stays. -/
def putAt (entries : Entries) (value : String) : (path : List String) → Entries
  | [] => entries
  | [last] => put entries last (.text value)
  | name :: rest =>
    match valueOf? entries name with
    | none => put entries name (.map (putAt [] value rest))
    | some (.map inner) => put entries name (.map (putAt inner value rest))
    | some _ => entries

abbrev Environment := List (String × String)

/-- What the name of every variable of the settings begins with, in lower case. -/
def variableLead : String := "cmdshell_"

/-- What stands between the names of a section and a setting. -/
def nesting : String := "__"

/-- The names in a text that nests them, `current` being the part of the present name already read,
last character first. -/
def nestedNames (current : List Char) : List Char → List String
  | '_' :: '_' :: rest => String.ofList current.reverse :: nestedNames [] rest
  | c :: rest => nestedNames (c :: current) rest
  | [] => [String.ofList current.reverse]

/-- The variables with their names in lower case. Of several with one name the last one counts. -/
def lowered (env : Environment) : Environment :=
  env.foldl (fun all v =>
    let name := v.1.toLower
    if all.any fun w => w.1 = name then all.map fun w => if w.1 = name then (name, v.2) else w
    else all ++ [(name, v.2)]) []

/-- The settings of a section that have variables of their own. -/
def singleSettings (env : Environment) (sect : String) : Entries :=
  env.foldl (fun found v =>
    match v.1.dropPrefix? (variableLead ++ sect ++ nesting) with
    | some rest => putAt found v.2 (nestedNames [] rest.copy.toList)
    | none => found) []

/-- The names of settings are taken in any case. -/
def properNames (known : List String) (entries : Entries) : Entries :=
  entries.foldl (fun all e =>
    let name := e.1.plain
    put all ((known.find? (· = name.toLower)).getD name) e.2) []

def settingNames (sect : String) : List String :=
  if sect = "shell" then ["prompt", "history_file", "history_length", "erase_empty_line", "colors"]
  else ["level", "format"]

/-- A variable whose value is not well formed; `sect` is the section that it sets. -/
structure VariableFault where
  sect : String
  deriving DecidableEq, Repr

def VariableFault.message (f : VariableFault) : String :=
  s!"error parsing value for field \"{f.sect}\" from source \"EnvSettingsSource\""

/-- The value that the environment gives to a section. -/
def sectionValue (env : Environment) (sect : String) : Except VariableFault (Option Datum) :=
  let single := singleSettings env sect
  let proper (entries : Entries) : Option Datum :=
    some (.map (properNames (settingNames sect) entries))
  match env.lookup (variableLead ++ sect) with
  | none => .ok (if single.isEmpty then none else proper single)
  | some text =>
    match Json.read? text with
    | none => .error ⟨sect⟩
    | some (.map entries) => .ok (proper (union entries single))
    | some .null => .ok none
    | some other => .ok (some other)

def ofEnvironment (env : Environment) : Except VariableFault Entries := do
  let env := lowered env
  sectionNames.foldlM (fun found sect => do
    match ← sectionValue env sect with
    | some value => .ok (put found sect value)
    | none => .ok found) []

/-- Sections are taken by their exact names, or else by their names in any case. -/
def properSections (entries : Entries) : Entries :=
  sectionNames.foldl (fun all sect =>
    if (valueOf? all sect).isSome then all
    else
      match all.find? fun e => e.1.plain.toLower = sect with
      | some e => all.map fun other =>
          if other.1.plain = e.1.plain then (.text sect, other.2) else other
      | none => all) entries

/-- Reads the settings of a file, those of the environment standing where the file sets none. -/
def ofSources (default : Settings) (env : Environment) (file : Entries) :
    Except (VariableFault ⊕ List Complaint) Settings :=
  match ofEnvironment env with
  | .error fault => .error (.inl fault)
  | .ok found =>
    match ofEntries default (union found (properSections file)) with
    | .ok settings => .ok settings
    | .error complaints => .error (.inr complaints)

end LineShell.Settings
