import LineShell.Text.Lines

/-!
Paths: names separated by slashes. A path is kept without empty names and without names that mean
the present directory, so that two spellings of one path are equal.
-/

namespace LineShell

/-- A path: the slashes it starts with, none for a relative path, and its names. -/
structure Path where
  root : Nat := 0
  names : List String := []
  deriving DecidableEq, Repr, Inhabited

namespace Path

/-- Reads a path. Two slashes at the start are kept as they are; any other number counts as one. -/
def ofString (s : String) : Path :=
  let chars := s.toList
  let slashes := (chars.takeWhile (· = '/')).length
  let names := (Text.pieces '/' chars).map String.ofList
  ⟨if slashes = 2 then 2 else min slashes 1, names.filter fun name => name ≠ "" && name ≠ "."⟩

/-- The written form; a relative path without names is a single dot. -/
def toString (p : Path) : String :=
  if p.root = 0 && p.names.isEmpty then "."
  else String.ofList (List.replicate p.root '/') ++ "/".intercalate p.names

def parent (p : Path) : Path :=
  { p with names := p.names.dropLast }

/-- The path behind `base`, unless it starts at the root itself. -/
def under (p base : Path) : Path :=
  if p.root = 0 then { base with names := base.names ++ p.names } else p

/-- Puts a home directory for a first name that is a tilde, or one with the name of a user behind
it. -/
def expandHome {ε : Type} (p : Path) (homeOf : String → Except ε Path) : Except ε Path :=
  match p.root, p.names with
  | 0, name :: names =>
    match name.toList with
    | '~' :: user =>
      (homeOf (String.ofList user)).map fun home => { home with names := home.names ++ names }
    | _ => .ok p
  | _, _ => .ok p

/-- A name holds the character NUL, which no file name can. -/
def hasNul (p : Path) : Bool :=
  p.names.any fun name => name.toList.contains '\x00'

end Path

end LineShell
