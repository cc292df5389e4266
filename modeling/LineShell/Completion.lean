import LineShell.Command.Table
import LineShell.Edit.Line
import LineShell.Text.Blank

/-!
Completion: the word under the cursor, the walk over command names that begin with a text, and what
several completions have in common.
-/

namespace LineShell.Completion

/-- Characters that end the word under the cursor. -/
def isWordBreak (c : Char) : Bool :=
  " \t\n\"\\'@$><=;|&\x7b(".toList.contains c || c = '\x60'

/-- Where the word before the end of a text begins. -/
def wordStart (before : List Char) : Nat :=
  (Text.dropRight (!isWordBreak ·) before).length

def word (before : List Char) : List Char :=
  before.drop (wordStart before)

def commonStart : List Char → List Char → List Char
  | a :: s, b :: t => if a = b then a :: commonStart s t else []
  | _, _ => []

def commonStartOf : List (List Char) → List Char
  | [] => []
  | s :: rest => rest.foldl commonStart s

/-- What all completions of a word, `n` characters long, have in common behind it; nothing if one of
them does not agree with the text before the cursor. -/
def commonSuffix (before : List Char) (n : Nat) (completions : List (List Char)) : List Char :=
  if completions.all fun c => (c.take n).isSuffixOf before then
    commonStartOf (completions.map (·.drop n))
  else []

/-- A walk over the command names that begin with a text. The names are looked up at the first
step. -/
structure Walk where
  text : String
  rest : Option (List String) := none
  deriving DecidableEq, Repr

namespace Walk

variable {π : Type}

def remaining (w : Walk) (r : Command.Registry π) : List String :=
  w.rest.getD (r.namesFrom w.text)

def next (w : Walk) (r : Command.Registry π) : Option String × Walk :=
  ((w.remaining r).head?, { w with rest := some (w.remaining r).tail })

def drain (w : Walk) (r : Command.Registry π) : List String × Walk :=
  (w.remaining r, { w with rest := some [] })

/-- Begins afresh, with another text if one is given. -/
def reset (w : Walk) (text : Option String) : Walk :=
  ⟨text.getD w.text, none⟩

end Walk

/-- The state of completion between attempts. -/
structure Engine (π : Type) where
  /-- The walk of the completer that is asked for one name at a time. -/
  walk : Option Walk := none
  /-- What shows the completions of the last attempt, if not the editor itself. -/
  displayHook : Option (String → List String → Nat → π) := none
  attemptOver : Bool := false

/-- The next name for the completer; number zero begins a new walk. -/
def Engine.completer {π : Type} (e : Engine π) (r : Command.Registry π) (text : String)
    (number : Int) : Option String × Engine π :=
  let walk := if number = 0 then ⟨text, none⟩ else e.walk.getD ⟨text, none⟩
  let (name, walk) := walk.next r
  (name, { e with walk := some walk })

/-- The most completions that are taken from a generator. -/
def limit : Nat := 10000

end LineShell.Completion
