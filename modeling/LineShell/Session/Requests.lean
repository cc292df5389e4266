import LineShell.Session.State

/-!
Requests for input. While a request is waiting its message is shown in place of the prompt, and the
next line is its answer; there is at most one at a time.
-/

namespace LineShell.Session

variable {σ : Type}

def requestMessage (colours : Bool) (label message : String) : String :=
  Colour.red.paint colours ("[" ++ label ++ "]") ++ " " ++ message ++ " "

/-- Enters a deed in the journal. -/
def record (s : Session σ) (deed : Deed σ) : Session σ :=
  { s with journal := deed :: s.journal }

/-- Asks for input, unless a request is waiting. -/
def requestInput (s : Session σ) (label message : String)
    (callback : Option (String → Datum → Program σ)) (data : Datum) : Session σ :=
  match s.request with
  | some _ =>
    (s.record (.refused ⟨callback, data⟩)).log
      ⟨.debug, "Input already requested, ignoring", [("label", .text label)]⟩
  | none =>
    let s := s.record (.asked ⟨callback, data⟩ s.colours label message)
    let s := s.onEditor fun e => e.savePrompt.showMessage (requestMessage s.colours label message)
    { s with request := some ⟨callback, data⟩ }

/-- The request is over; its callback has not been run yet. -/
def answered (s : Session σ) (request : PendingRequest σ) (answer : String) : Session σ :=
  { (s.record (.answered request answer)).onEditor (·.restorePrompt) with request := none }

/-- Answers the request that is waiting, if there is one. The request is over before its callback is
run. -/
def release (call : Program σ → Act σ Reply) (answer : String) : Act σ Bool := do
  match (← get).request with
  | none => return false
  | some request =>
    modify (·.answered request answer)
    match request.callback with
    | some callback =>
      let _ ← call (callback answer request.data)
      return true
    | none => return true

end LineShell.Session
