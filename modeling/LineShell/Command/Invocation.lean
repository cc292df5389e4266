/-!
Invocations: a command line is the name of a command, after any spaces, and behind one further space
its argument, of which one space at the end is dropped.
-/

namespace LineShell.Command

structure Invocation where
  name : String
  argument : String
  deriving DecidableEq, Repr

def dropLastSpace (s : List Char) : List Char :=
  if s.getLast? = some ' ' then s.dropLast else s

/-- Reads a command line; none if there is nothing but spaces. -/
def Invocation.ofLine? (line : String) : Option Invocation :=
  let body := line.toList.dropWhile (· = ' ')
  if body.isEmpty then none
  else
    let argument := (body.dropWhile (· ≠ ' ')).drop 1
    some ⟨String.ofList (body.takeWhile (· ≠ ' ')), String.ofList (dropLastSpace argument)⟩

end LineShell.Command
