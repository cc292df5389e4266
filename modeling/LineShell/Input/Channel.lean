import LineShell.Failure

/-!
The channel through which input arrives: a terminal or a pipe, and the event loop that watches it.
Any call of the terminal and of the loop may be refused.
-/

namespace LineShell.Input

inductive Mode where
  /-- Input arrives line by line, and is echoed. -/
  | cooked
  /-- Every key arrives at once, without an echo. -/
  | immediate
  deriving DecidableEq, Repr

inductive TerminalCall where
  | readMode
  | setImmediate
  | restoreMode
  deriving DecidableEq, Repr

inductive LoopCall where
  | watch
  | unwatch
  deriving DecidableEq, Repr

/-- A channel and the loop that watches it. -/
structure Channel where
  isTerminal : Bool := false
  mode : Mode := .cooked
  /-- The calls of the terminal that are refused, with the reports. -/
  terminalFaults : List (TerminalCall × String) := []
  /-- The calls of the loop that are refused, with the failures. -/
  loopFaults : List (LoopCall × Failure) := []
  /-- A reader is registered with the loop. -/
  watched : Bool := false
  /-- The bytes that have arrived and not been read. -/
  queue : List UInt8 := []
  deriving Repr, Inhabited

namespace Channel

/-- The most bytes that one reading takes. -/
def readSize : Nat := 1024

/-- Reads what has arrived; no bytes are the end of the input. -/
def read (c : Channel) : List UInt8 × Channel :=
  (c.queue.take readSize, { c with queue := c.queue.drop readSize })

def arrive (c : Channel) (bytes : List UInt8) : Channel :=
  { c with queue := c.queue ++ bytes }

end Channel

end LineShell.Input
