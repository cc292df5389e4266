import LineShell.Command.Entry

/-!
Command tables. A table holds commands in order, none without a name and no two with one name. A
registry holds the default table and, once one has been installed, a menu.
-/

namespace LineShell.Command

/-- Why commands make no table. -/
inductive TableFault where
  | emptyName
  | duplicateName (name : String)
  deriving DecidableEq, Repr

def TableFault.message : TableFault → String
  | emptyName => "Command name must not be empty"
  | duplicateName name => "Duplicate command name: " ++ name

variable {π : Type}

structure Table (π : Type) where
  entries : List (Entry π)

namespace Table

/-- The first fault among entries, the names in `seen` having come before. -/
def faultAmong (seen : List String) : List (Entry π) → Option TableFault
  | [] => none
  | e :: rest =>
    if e.name = "" then some .emptyName
    else if seen.contains e.name then some (.duplicateName e.name)
    else faultAmong (e.name :: seen) rest

def ofList (entries : List (Entry π)) : Except TableFault (Table π) :=
  match faultAmong [] entries with
  | some fault => .error fault
  | none => .ok ⟨entries⟩

def names (t : Table π) : List String := t.entries.map Entry.name

/-- The command with exactly this name. -/
def find? (t : Table π) (name : String) : Option (Entry π) :=
  t.entries.find? (·.name = name)

end Table

/-- The default commands, and the menu once it has been installed. -/
structure Registry (π : Type) where
  defaults : Table π
  menu : Option (Table π) := none

namespace Registry

/-- Installs a menu. Only the first one that holds a command is taken. -/
def setMenu (r : Registry π) (menu : Option (Table π)) : Bool × Registry π :=
  match r.menu, menu with
  | none, some table =>
    if table.entries.isEmpty then (false, r) else (true, { r with menu := some table })
  | _, _ => (false, r)

/-- The tables in the order in which commands are looked up. -/
def tables (r : Registry π) : List (Table π) :=
  r.menu.toList ++ [r.defaults]

/-- The command to run for a name: the menu's before the default one. -/
def resolve? (r : Registry π) (name : String) : Option (Entry π) :=
  r.tables.findSome? (·.find? name)

/-- The command whose generator completes arguments: the default one before the menu's, and only if
it has a generator. -/
def resolveGenerator? (r : Registry π) (name : String) : Option (Entry π × (String → Nat → π)) :=
  r.tables.reverse.findSome? fun table =>
    (table.find? name).bind fun e => e.generator.map fun g => (e, g)

/-- The command names that begin with a text: the default ones, then the menu's. -/
def namesFrom (r : Registry π) (text : String) : List String :=
  (r.tables.reverse.flatMap Table.names).filter fun name => text.toList.isPrefixOf name.toList

end Registry

end LineShell.Command
