import LineShell.Session.Keys
import LineShell.Session.Lifecycle

/-!
Running programs. Operations may run further programs, such as the handlers of commands, and these
may perform operations again; the depth of this nesting is limited.
-/

namespace LineShell

namespace Session

variable {σ : Type}

def editing (change : Edit.Editor → Edit.Editor) : Act σ Reply := do
  modify (·.onEditor change)
  return .nothing

/-- Performs an operation, `call` running the programs that it leads to. -/
def perform (call : Program σ → Act σ Reply) : Operation → Act σ Reply
  | .feed text => do
    feed call text.toList
    return .nothing
  | .install prompt => editing (·.install prompt)
  | .remove => editing (·.remove)
  | .editorPrompt prompt => editing (·.setPrompt prompt)
  | .savePrompt => editing (·.savePrompt)
  | .restorePrompt => editing (·.restorePrompt)
  | .message text => editing (·.showMessage text)
  | .clearMessage => editing (·.clearMessage)
  | .write text => editing (·.write text)
  | .redisplay => editing (·.redisplay)
  | .newRow => editing (·.newRow)
  | .replaceLine text => editing (·.replaceLine text.toList)
  | .insertText text => editing (·.insertText text.toList)
  | .movePoint position => editing (·.movePoint position)
  | .addHistory line => return .flag (← remember line)
  | .line text => do
    completeLine call text
    return .nothing
  | .dispatch line => do
    dispatch call line
    return .nothing
  | .print template args => do
    print template args
    return .nothing
  | .dump bytes => do
    modify (·.dump bytes)
    return .nothing
  | .printMenu => do
    modify printMenu
    return .nothing
  | .quit => do
    modify quit
    return .nothing
  | .hangUp => do
    modify hangUp
    return .nothing
  | .setPrompt prompt => do
    modify (·.setPrompt prompt)
    return .nothing
  | .release text => return .flag (← release call text)
  | .start argv => return .args (← start argv)
  | .attach descriptor => return .flag (← attach descriptor)
  | .detach => return .flag (← detach)
  | .signal s => do
    modify (·.receiveSignal s)
    return .flag (← get).bridge.terminated
  | .log event => do
    modify (·.log event)
    return .nothing
  | .tearDown => do
    tearDown call
    return .nothing

/-- Runs an action with the edit line blanked, and puts the line back afterwards. Where no line is
being edited the action is run as it is. -/
def suspended {α : Type} (body : Act σ α) : Act σ α := do
  let e := (← get).editor
  if e.active then
    modify (·.onEditor (·.blank))
    Act.ensuring body (·.onEditor (·.resume e.line))
  else body

def menuTable (menu : Option (List (Command.Entry (Program σ)))) :
    Act σ (Option (Command.Table (Program σ))) :=
  match menu with
  | none => return none
  | some entries =>
    match Command.Table.ofList entries with
    | .ok table => return some table
    | .error fault => Act.fail (.table fault)

/-- Offers a table to the registry. That it is not taken is logged. -/
def offerMenu (table : Option (Command.Table (Program σ))) : Act σ Bool := do
  let s ← get
  let (taken, registry) := s.registry.setMenu table
  if taken then
    modify fun s => { s with registry }
    return true
  else
    modify (·.log ⟨.warning, "Menu not set",
      [("reason", .text (if s.registry.menu.isSome then "already set" else "empty menu"))]⟩)
    return false

def setMenu (menu : Option (List (Command.Entry (Program σ)))) : Act σ Bool := do
  offerMenu (← menuTable menu)

end Session

namespace Program

variable {σ : Type}

/-- Runs a program, `call` running those that its operations lead to. -/
def run (call : Program σ → Act σ Reply) : Program σ → Act σ Reply
  | done reply => return reply
  | fail cause => throw cause
  | consult next => do (next (← get).programs).run call
  | note change next => do
    modify fun s => { s with programs := change s.programs }
    next.run call
  | inspect next => do
    let s ← get
    (next s.settings s.colours).run call
  | perform op next => do (next (← Session.perform call op)).run call
  | request label message callback data next => do
    modify (·.requestInput label message callback data)
    next.run call
  | setMenu menu next => do (next (← Session.setMenu menu)).run call
  | suspended body next => do
    let _ ← Session.suspended (body.run call)
    next.run call
  | attempt body next => do (next (← Act.outcome (body.run call))).run call

/-- Runs a program in which programs lead to others down to a depth. -/
def exec : (depth : Nat) → Program σ → Act σ Reply
  | 0, _ => Act.fail .tooDeep
  | depth + 1, p => p.run (exec depth)

/-- The depth down to which programs may lead to others. -/
def depthLimit : Nat := 200

def execute (p : Program σ) : Act σ Reply := p.exec depthLimit

end Program

end LineShell
