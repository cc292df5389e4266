import LineShell.Proofs.Attribution
import LineShell.Proofs.Consumers
import LineShell.Proofs.Deafness
import LineShell.Proofs.Dispatching
import LineShell.Proofs.Strokes
import LineShell.Proofs.Typing

/-!
# What gets out of a text that is fed

A handler that fails is reported in one line, and the text that is being fed goes on. The other code
of commands is not so contained. What a generator or a hook fails with when a word is completed gets
out of the text, unreported, as does what a callback fails with. The rest of the text is lost then,
and the editor is deaf until it has been removed.
-/

namespace LineShell

open Act Edit Session

variable {σ : Type} {call : Program σ → Act σ Reply} {s t : Session σ} {i : Interrupt}

/-! ### Texts that are given up -/

def Session.word (s : Session σ) : String := String.ofList (Completion.word s.editor.line.before)

end LineShell
