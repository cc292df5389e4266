import LineShell.Session.EventLoop

/-!
A small menu that shows what commands can do: print, dump bytes, ask for input, and complete their
arguments. The only state is the name of the colour that the prompt was given.
-/

namespace LineShell.Demo

def colours : List (String × Colour) :=
  [("blue", .blue), ("green", .green), ("red", .red), ("yellow", .yellow)]

variable {σ : Type}

def say (template : String) (args : List String) : Program σ :=
  .single (.print template (args.map .text))

def echo (arg : String) : Program σ := say "%s\n" [arg]

def hexdump (arg : String) : Program σ :=
  if arg = "" then say "Missing text argument\n" []
  else .single (.dump (Text.Utf8.encode arg.toList))

/-- Judges a PIN code: digits, at least one. -/
def judgePin (answer : String) (device : Datum) : Program σ :=
  if !answer.toList.isEmpty && answer.toList.all Text.isFigure then
    .single (.print "PIN accepted for %s (%d digits)\n" [device, .int answer.length])
  else .single (.print "Invalid PIN for %s\n" [device])

def pin (arg : String) : Program σ :=
  let device := if arg = "" then "device" else arg
  .request device "Enter PIN code:" (some judgePin) (.text device) .skip

/-- Gives the prompt a colour; `keep` keeps its name. -/
def colour (keep : String → σ → σ) (arg : String) : Program σ :=
  match colours.lookup arg with
  | none => say "Unknown color: %s\n" [if arg = "" then "(none)" else arg]
  | some c =>
    .note (keep arg) (.inspect fun settings enabled =>
      .single (.setPrompt (c.paint enabled settings.shell.prompt)))

/-- The names of colours that begin with a text, one by one. -/
def colourNames (text : String) (number : Nat) : Program σ :=
  let found := (colours.map Prod.fst).filter fun name => text.toList.isPrefixOf name.toList
  .done (.candidate found[number]?)

/-- Shows the names of colours in their colours, the prompt's being marked. -/
def showColours (current : σ → String) : List String → Program σ
  | [] => .skip
  | name :: rest =>
    .consult fun s => .inspect fun _ enabled =>
      let mark := if name = current s then "*" else " "
      let painted := ((colours.lookup name).map fun c => c.paint enabled name).getD name
      .perform (.print "%s %s\n" [.text mark, .text painted]) fun _ => showColours current rest

/-- The commands of the menu; `current` and `keep` give and keep the name of the prompt's colour. -/
def menu (current : σ → String) (keep : String → σ → σ) : List (Command.Entry (Program σ)) := [
  { name := "echo", handler := echo, description := "Print the argument", hint := some "<text>" },
  { name := "hexdump", handler := hexdump, description := "Hex dump of the argument bytes",
    hint := some "<text>" },
  { name := "pin", handler := pin, description := "Ask for a PIN code", hint := some "[device]" },
  { name := "color", handler := colour keep, description := "Change the prompt color",
    hint := some "<name>", generator := some colourNames,
    displayHook := some fun _ found _ =>
      .perform (.print "\n" []) fun _ => showColours current found }]

/-- Starts a shell with the menu on an input. -/
def startOn (argv : List String) (descriptor : Nat) (current : σ → String)
    (keep : String → σ → σ) : Act σ Unit := do
  let _ ← Session.start argv
  let _ ← Session.setMenu (some (menu current keep))
  let _ ← Session.attach descriptor

/-- Starts a shell with the menu on an input, and runs it until it ends. -/
def runOn (argv : List String) (descriptor : Nat) (current : σ → String) (keep : String → σ → σ) :
    Act σ Unit := do
  startOn argv descriptor current keep
  Session.run []

end LineShell.Demo
