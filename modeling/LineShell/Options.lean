import LineShell.Text.Lines
import LineShell.Text.Quoted

/-!
The options of the command line. Options and positional arguments may be mixed; two dashes end the
options. A value stands behind its option, or is joined to it: by an equals sign to a long option,
directly to a short one.
-/

namespace LineShell

structure Options where
  version : Bool := false
  /-- The path of a settings file, empty for the usual one. -/
  config : String := ""
  verbose : Bool := false
  help : Bool := false
  args : List String := []
  deriving DecidableEq, Repr

inductive OptionFault where
  | unknown (name : String)
  | needsValue (name : String)
  | takesNoValue (name : String)
  deriving DecidableEq, Repr

def OptionFault.message : OptionFault → String
  | unknown name => "No such option: " ++ name
  | needsValue name => "Option " ++ Text.quoted name ++ " requires an argument."
  | takesNoValue name => "Option " ++ Text.quoted name ++ " does not take a value."

namespace Options

inductive Effect where
  | flag (set : Options → Options)
  | value (set : Options → String → Options)

def long? (name : String) : Option Effect :=
  match name with
  | "--version" => some (.flag fun o => { o with version := true })
  | "--config" => some (.value fun o s => { o with config := s })
  | "--verbose" => some (.flag fun o => { o with verbose := true })
  | "--help" => some (.flag fun o => { o with help := true })
  | _ => none

def short? (letter : Char) : Option Effect :=
  match letter with
  | 'v' => some (.flag fun o => { o with version := true })
  | 'c' => some (.value fun o s => { o with config := s })
  | _ => none

/-- Reads short options that are written together: the options, or the option that still needs a
value and what it does. -/
def letters (o : Options) : List Char → Except OptionFault (Options ⊕ String × (String → Options))
  | [] => .ok (.inl o)
  | letter :: rest =>
    match short? letter with
    | none => .error (.unknown (String.ofList ['-', letter]))
    | some (.flag set) => letters (set o) rest
    | some (.value set) =>
      if rest.isEmpty then .ok (.inr (String.ofList ['-', letter], set o))
      else .ok (.inl (set o (String.ofList rest)))

/-- Reads one option: the options, or the option that still needs a value and what it does. -/
def word (o : Options) (text : String) :
    Except OptionFault (Options ⊕ String × (String → Options)) :=
  let s := text.toList
  if s.take 2 = ['-', '-'] then
    let name := String.ofList (s.takeWhile (· ≠ '='))
    let joined := s.dropWhile (· ≠ '=')
    match long? name with
    | none => .error (.unknown name)
    | some (.flag set) => if joined.isEmpty then .ok (.inl (set o)) else .error (.takesNoValue name)
    | some (.value set) =>
      if joined.isEmpty then .ok (.inr (name, set o))
      else .ok (.inl (set o (String.ofList joined.tail)))
  else letters o s.tail

def addArg (o : Options) (text : String) : Options := { o with args := o.args ++ [text] }

/-- An argument that names options: a dash and more. -/
def isOption (text : String) : Bool :=
  text.toList.head? = some '-' && text.length > 1

/-- Reads arguments. `waiting` is the option that takes the next one as its value. -/
def readFrom (o : Options) (waiting : Option (String × (String → Options))) :
    List String → Except OptionFault Options
  | [] =>
    match waiting with
    | none => .ok o
    | some (name, _) => .error (.needsValue name)
  | text :: rest =>
    match waiting with
    | some (_, set) => readFrom (set text) none rest
    | none =>
      if text = "--" then .ok (rest.foldl addArg o)
      else if isOption text then
        match word o text with
        | .error fault => .error fault
        | .ok (.inl o) => readFrom o none rest
        | .ok (.inr waiting) => readFrom o (some waiting) rest
      else readFrom (o.addArg text) none rest

/-- Reads a command line, the program's name being first. Where help is asked for nothing else
counts. -/
def ofArgs (argv : List String) : Except OptionFault Options :=
  (readFrom {} none argv.tail).map fun o => if o.help then { help := true } else o

end Options

end LineShell
