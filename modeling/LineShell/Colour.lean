/-!
Colours: a text is painted by writing a code before it and the code that ends it behind it.
-/

namespace LineShell

/-- The colours in use, each named for its place in the shell's output. -/
inductive Colour where
  | red
  | green
  | yellow
  | blue
  | highlight
  deriving DecidableEq, Repr

namespace Colour

def off : String := "\x1b[0m"

def code : Colour → String
  | red => "\x1b[0;91m"
  | green => "\x1b[0;92m"
  | yellow => "\x1b[0;93m"
  | blue => "\x1b[0;94m"
  | highlight => "\x1b[1;39m"

/-- A text between a code and the ending code. -/
def wrap (code text : String) : String :=
  code ++ text ++ off

/-- Paints a text if colours are on. -/
def paint (c : Colour) (enabled : Bool) (text : String) : String :=
  if enabled then wrap c.code text else text

end Colour

end LineShell
