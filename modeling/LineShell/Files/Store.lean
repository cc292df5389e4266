import LineShell.Files.Path

/-!
A store of files: the nodes below a root, some of them directories, and the directory in which
relative paths start. Operations that cannot be done say why, and change nothing.
-/

namespace LineShell.Files

/-- What stands at a place in the store. -/
inductive Node where
  | directory
  | file (bytes : List UInt8)
  deriving DecidableEq, Repr

structure Store where
  /-- The nodes by the names that lead to them from the root; the root itself is not listed. -/
  nodes : List (List String × Node) := []
  workDir : List String := []
  deriving Repr, Inhabited

/-- Why a file operation cannot be done. -/
inductive Cause where
  | missing
  | occupied
  | notDirectory
  | isDirectory
  deriving DecidableEq, Repr

/-- A file operation that cannot be done: the cause and the path it was asked for. -/
inductive Fault where
  | refused (cause : Cause) (path : Path)
  | nul
  deriving DecidableEq, Repr

/-- The number and the words of a cause. -/
def Cause.words : Cause → String
  | missing => "[Errno 2] No such file or directory"
  | occupied => "[Errno 17] File exists"
  | notDirectory => "[Errno 20] Not a directory"
  | isDirectory => "[Errno 21] Is a directory"

namespace Store

def node? (s : Store) (place : List String) : Option Node :=
  if place.isEmpty then some .directory
  else (s.nodes.find? fun entry => entry.1 = place).map Prod.snd

/-- Walks from a directory along names. The last name need not exist. -/
def walk (s : Store) (directory : List String) : List String → Except Cause (List String)
  | [] => .ok directory
  | name :: rest =>
    if name = ".." then s.walk directory.dropLast rest
    else match s.node? (directory ++ [name]), rest with
      | some .directory, _ => s.walk (directory ++ [name]) rest
      | some (.file _), [] => .ok (directory ++ [name])
      | some (.file _), _ :: _ => .error .notDirectory
      | none, [] => .ok (directory ++ [name])
      | none, _ :: _ => .error .missing

def place (s : Store) (p : Path) : Except Cause (List String) :=
  s.walk (if p.root = 0 then s.workDir else []) p.names

/-- The node that a path leads to; none too if the way to it is blocked. -/
def find? (s : Store) (p : Path) : Option Node :=
  match s.place p with
  | .ok place => s.node? place
  | .error _ => none

def contains (s : Store) (p : Path) : Bool :=
  !p.hasNul && (s.find? p).isSome

def isDirectory (s : Store) (p : Path) : Bool :=
  s.find? p = some .directory

def insert (s : Store) (place : List String) (node : Node) : Store :=
  { s with nodes := (place, node) :: s.nodes.filter fun entry => entry.1 ≠ place }

def read (s : Store) (p : Path) : Except Fault (List UInt8) :=
  if p.hasNul then .error .nul
  else match s.place p with
    | .error cause => .error (.refused cause p)
    | .ok place => match s.node? place with
      | some (.file bytes) => .ok bytes
      | some .directory => .error (.refused .isDirectory p)
      | none => .error (.refused .missing p)

/-- Appends bytes to the file at a path, making the file if need be. -/
def append (s : Store) (p : Path) (bytes : List UInt8) : Except Fault Store :=
  if p.hasNul then .error .nul
  else match s.place p with
    | .error cause => .error (.refused cause p)
    | .ok place => match s.node? place with
      | some (.file old) => .ok (s.insert place (.file (old ++ bytes)))
      | some .directory => .error (.refused .isDirectory p)
      | none => .ok (s.insert place (.file bytes))

def makeDirectory (s : Store) (p : Path) : Except Fault Store :=
  if p.hasNul then .error .nul
  else match s.place p with
    | .error cause => .error (.refused cause p)
    | .ok place => match s.node? place with
      | some _ => .error (.refused .occupied p)
      | none => .ok (s.insert place .directory)

/-- Makes a directory and those above it that are missing, `height` of them at most. A directory
that exists is left as it is. -/
def makeDirectories (s : Store) (p : Path) : (height : Nat) → Except Fault Store
  | 0 => s.makeDirectory p
  | height + 1 =>
    match s.makeDirectory p with
    | .ok s => .ok s
    | .error (.refused .missing q) =>
      if p.parent = p then .error (.refused .missing q)
      else do
        let s ← s.makeDirectories p.parent height
        match s.makeDirectory p with
        | .ok s => .ok s
        | .error fault => if s.isDirectory p then .ok s else .error fault
    | .error .nul => .error .nul
    | .error fault => if s.isDirectory p then .ok s else .error fault

/-- Makes the directory that is to hold a file. -/
def prepareParent (s : Store) (p : Path) : Except Fault Store :=
  s.makeDirectories p.parent (p.parent.names.length + 1)

/-- Takes a directory away with all that is below it. -/
def removeTree (s : Store) (p : Path) : Store :=
  match s.place p with
  | .ok place => { s with nodes := s.nodes.filter fun entry => !place.isPrefixOf entry.1 }
  | .error _ => s

/-- Puts a file with the given bytes at a path, with the directories above it. -/
def put (s : Store) (p : Path) (bytes : List UInt8) : Store :=
  match s.prepareParent p with
  | .ok s => match s.place p with
    | .ok place => s.insert place (.file bytes)
    | .error _ => s
  | .error _ => s

end Store

end LineShell.Files
