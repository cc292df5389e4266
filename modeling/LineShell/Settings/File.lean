import LineShell.Files.Fault
import LineShell.Settings.Environment
import LineShell.Yaml.Value

/-!
Settings files. A file holds one YAML document, a mapping of sections; an empty document, and any
other value that counts as nothing, sets nothing. So does a file that does not exist. What a file
holds, and what settings its entries make together with the environment, is for libraries to say.
-/

namespace LineShell.Settings

/-- Why settings cannot be loaded. -/
inductive LoadFault where
  /-- The file is no YAML document of known types. -/
  | malformed (path : Path)
  /-- The document is no mapping. -/
  | noMapping (path : Path)
  | unreadable (fault : Files.Fault)
  | notText (fault : Text.Utf8.Fault)
  /-- A scalar in the file has the form of its type and no value. -/
  | noValue (report : String)
  | noTruthValue (word : String)
  | noCharacter
  | noMoment
  /-- A key of the mapping is no text. -/
  | keyNoText
  /-- The path of a file names a user who is not known. -/
  | badPath (fault : PathFault)
  | badVariable (fault : VariableFault)
  | invalid (complaints : List Complaint)
  deriving DecidableEq, Repr

namespace LoadFault

def message : LoadFault → String
  | malformed path => "Invalid config file " ++ path.toString
  | noMapping path => "Config file " ++ path.toString ++ " must contain a mapping"
  | unreadable fault => fault.message
  | notText fault => fault.message
  | noValue report => report
  | noTruthValue word => Text.quoted word
  | noCharacter => "string index out of range"
  | noMoment => "'NoneType' object has no attribute 'groupdict'"
  | keyNoText => "keywords must be strings"
  | badPath fault => fault.message
  | badVariable fault => fault.message
  | invalid complaints => complaintsText complaints

/-- The first line of the full report, which counts the complaints. -/
def headline : LoadFault → String
  | invalid complaints =>
    let n := complaints.length
    toString n ++ " validation error" ++ (if n = 1 then "" else "s") ++ " for Config"
  | other => String.ofList (other.message.toList.takeWhile (· ≠ '\n'))

/-- The fault is one of the file or of the settings, so that it is reported to the user. Others
show that the loading itself went wrong. -/
def isReported : LoadFault → Bool
  | noTruthValue _ | noCharacter | noMoment | keyNoText | badPath _ => false
  | _ => true

/-- A user's name with a NUL is refused like a file's name with one. -/
def ofPath : PathFault → LoadFault
  | .unknownUser => badPath .unknownUser
  | .nul => unreadable .nul

end LoadFault

/-- What reading settings leaves to libraries; `ε` is what these fail with. -/
structure Library (ε : Type) where
  /-- The document in a file. It may also be found that the file holds none. -/
  document : List UInt8 → Except (Option ε) Datum
  /-- The settings from those by default, the environment, and the entries of a file. -/
  settings : Settings → Environment → Entries → Except ε Settings

namespace Library

variable {ε ε' : Type}

/-- The same library, its failures being taken as others. -/
def mapFault (f : ε → ε') (lib : Library ε) : Library ε' where
  document bytes := (lib.document bytes).mapError (·.map f)
  settings default env file := (lib.settings default env file).mapError f

/-- The failure to read a document; none is that the text holds no document. -/
def faultOfYaml : Yaml.Fault → Option LoadFault
  | .malformed => none
  | .noValue report => some (.noValue report)
  | .noTruthValue word => some (.noTruthValue word)
  | .noCharacter => some .noCharacter
  | .noMoment => some .noMoment

/-- YAML, and settings as they are read here. -/
def standard : Library LoadFault where
  document bytes :=
    match Text.Utf8.decodeStrict bytes with
    | .error fault => .error (some (.notText fault))
    | .ok text => (Yaml.read (Text.unifyNewlines text)).mapError faultOfYaml
  settings default env file :=
    match ofSources default env file with
    | .ok settings => .ok settings
    | .error (.inl fault) => .error (.badVariable fault)
    | .error (.inr complaints) => .error (.invalid complaints)

end Library

def isNothing : Datum → Bool
  | .null | .bool false => true
  | .int n => n = 0
  | .decimal d => d.isZero
  | .text s => s = ""
  | .bytes b => b.isEmpty
  | .list items => items.isEmpty
  | .map entries => entries.isEmpty
  | .set items => items.isEmpty
  | _ => false

def entriesOf (path : Path) (document : Datum) : Except LoadFault Entries :=
  if isNothing document then .ok []
  else
    match document with
    | .map entries =>
      if entries.all fun e => match e.1 with | .text _ => true | _ => false then .ok entries
      else .error .keyNoText
    | _ => .error (.noMapping path)

/-- The name of the settings file in the working directory. -/
def localName : String := "cmdshell.yaml"

/-- The settings file: the one named, or that in the working directory, or else the user's own. -/
def filePath (store : Files.Store) (places : UserPlaces) (named : Option String) :
    Except LoadFault Path :=
  match named.filter (· ≠ "") with
  | some text => (places.path text).mapError .ofPath
  | none =>
    let here : Path := ⟨1, store.workDir ++ [localName]⟩
    .ok (if store.contains here then here else places.settingsFile)

section Loading

variable {ε : Type} (own : LoadFault → ε) (lib : Library ε)

def document (store : Files.Store) (path : Path) : Except ε Datum :=
  match store.read path with
  | .error fault => .error (own (.unreadable fault))
  | .ok bytes => (lib.document bytes).mapError (·.getD (own (.malformed path)))

/-- The entries of the settings file, if there is one. -/
def fileEntries (store : Files.Store) (places : UserPlaces) (named : Option String) :
    Except ε Entries := do
  let path ← (filePath store places named).mapError own
  if store.contains path then (entriesOf path (← document own lib store path)).mapError own
  else .ok []

/-- Loads settings with a library; `own` takes the faults that are found without it as failures. -/
def loadWith (store : Files.Store) (env : Environment) (places : UserPlaces)
    (named : Option String) : Except ε Settings := do
  lib.settings (Settings.default places) env (← fileEntries own lib store places named)

end Loading

def load (store : Files.Store) (env : Environment) (places : UserPlaces) (named : Option String) :
    Except LoadFault Settings :=
  loadWith id .standard store env places named

end LineShell.Settings
