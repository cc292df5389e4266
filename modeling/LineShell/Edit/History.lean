import LineShell.Files.Store
import LineShell.Text.Utf8

/-!
The history of entered lines. In memory it is the tail, of limited length, of all lines that were
neither empty nor equal to the line before. Once a file has been loaded, each further line is
appended to it. In the file every row of an entry starts with a plus sign, and a comment line with
the time stands before each entry.
-/

namespace LineShell.Edit

/-- The history: its entries, oldest first, the limit on their number (none unless positive), and
the file that keeps them. -/
structure History where
  limit : Int := 1000
  entries : List String := []
  file : Option Path := none
  deriving DecidableEq, Repr, Inhabited

namespace History

def last? (h : History) : Option String := h.entries.getLast?

/-- The last `limit` of some entries, or all of them if there is no limit. -/
def tail (limit : Int) (entries : List String) : List String :=
  if limit > 0 then entries.drop (entries.length - limit.toNat) else entries

theorem length_tail_le {limit : Int} (h : 0 < limit) (entries : List String) :
    (tail limit entries).length ≤ limit.toNat := by
  rw [tail, if_pos h, List.length_drop]
  omega

/-- A line is kept unless it is empty or equal to the newest entry. -/
def accepts (h : History) (line : String) : Bool :=
  line ≠ "" && h.last? ≠ some line

def remember (h : History) (line : String) : History :=
  if h.accepts line then { h with entries := tail h.limit (h.entries ++ [line]) } else h

/-- The entry at an index, which counts from the end if negative. -/
def get? (h : History) (index : Int) : Option String :=
  if index ≥ 0 then h.entries[index.toNat]?
  else if index.natAbs ≤ h.entries.length then h.entries[h.entries.length - index.natAbs]?
  else none

/-- What is appended to the file for a line. -/
def written (time line : String) : List Char :=
  '\n' :: '#' :: ' ' :: time.toList ++ '\n' ::
    (Text.pieces '\n' line.toList).flatMap fun row => '+' :: row ++ ['\n']

/-- The lines of a file, each with the line feed that ends it. -/
def fileLines : List UInt8 → List (List UInt8)
  | [] => []
  | b :: rest =>
    if b = 10 then [b] :: fileLines rest
    else match fileLines rest with
      | [] => [[b]]
      | line :: lines => (b :: line) :: lines

/-- The entry that rows make: all of them without the last character. -/
def entryOf (rows : List (List Char)) : List String :=
  if rows.isEmpty then [] else [String.ofList rows.flatten.dropLast]

/-- The entries in the lines of a file, `rows` being the rows of the present one so far. -/
def readEntries (rows : List (List Char)) : List (List Char) → List String
  | [] => entryOf rows
  | ('+' :: row) :: lines => readEntries (rows ++ [row]) lines
  | _ :: lines => entryOf rows ++ readEntries [] lines

def ofBytes (bytes : List UInt8) : List String :=
  readEntries [] ((fileLines bytes).map Text.Utf8.decode)

/-- Adds a line: whether it was kept, the new history, the new store, and the fault that kept the
line out of the file. -/
def add (h : History) (store : Files.Store) (time line : String) :
    Bool × History × Files.Store × Option Files.Fault :=
  if h.accepts line then
    match h.file with
    | none => (true, h.remember line, store, none)
    | some path =>
      match store.append path (Text.Utf8.encode (written time line)) with
      | .ok store => (true, h.remember line, store, none)
      | .error fault => (true, h.remember line, store, some fault)
  else (false, h, store, none)

/-- The entries kept at a path, none if there is no file. -/
def stored (store : Files.Store) (path : Path) : Except Files.Fault (List String) :=
  if store.contains path then (store.read path).map ofBytes else .ok []

/-- Loads the file at a path, making the directory for it, and goes on to append to it. A fault
leaves the history as it was. -/
def load (h : History) (store : Files.Store) (path : Path) :
    Except Files.Fault History × Files.Store :=
  match store.prepareParent path with
  | .error fault => (.error fault, store)
  | .ok store =>
    match stored store path with
    | .error fault => (.error fault, store)
    | .ok entries => (.ok (entries.foldl remember { h with file := some path }), store)

end History

end LineShell.Edit
