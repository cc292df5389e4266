/-!
Commands: a name, the code that is run for it, and what is shown about it. Code is a value of some
type `π` of programs.
-/

namespace LineShell.Command

structure Entry (π : Type) where
  name : String
  /-- What is run, given the argument. -/
  handler : String → π
  description : String := ""
  /-- The form of the argument, for the help listing. -/
  hint : Option String := none
  /-- Yields the completions of a text one by one, by their numbers. -/
  generator : Option (String → Nat → π) := none
  /-- Shows completions, given the text, its completions, and the longest length among them. -/
  displayHook : Option (String → List String → Nat → π) := none

end LineShell.Command
