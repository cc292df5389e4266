import LineShell.Proofs.Leaving
import LineShell.Proofs.Silence

/-!
# Deafness

An editor is deaf while it handles a key, since no character is read in between, and it stays deaf
if the handling is given up. Programs that do not make the editor accept keys again leave it so,
whatever else they do: the texts that they feed are refused.
-/

namespace LineShell

open Act Edit Session

variable {σ : Type} {call : Program σ → Act σ Reply} {s t : Session σ} {depth : Nat}
  {way : KeyDecoder.Progress}

/-! ### Feeding the deaf -/

@[simp] theorem Edit.Editor.decoder_redisplayIfInstalled (e : Editor) :
    e.redisplayIfInstalled.decoder = e.decoder := by
  unfold redisplayIfInstalled
  split <;> rfl

/-- Keys are not accepted, or the decoder is in a way not ready. -/
structure Edit.Editor.Stuck (way : KeyDecoder.Progress) (e : Editor) : Prop where
  waits : way ≠ .ready
  deaf : e.installed = false ∨ e.decoder.progress = way ∧ e.decoder.paste = none

namespace Edit.Editor.Stuck

variable {e e' : Editor}

theorem congr (h : e.Stuck way) (installed : e'.installed = e.installed)
    (decoder : e'.decoder = e.decoder) : e'.Stuck way :=
  ⟨h.waits, by rw [installed, decoder]; exact h.deaf⟩

theorem removed (h : e.Stuck way) (removed : e'.installed = false) : e'.Stuck way :=
  ⟨h.waits, .inl removed⟩

theorem redisplayIfInstalled (h : e.Stuck way) {shown : Editor}
    (editor : e' = shown.redisplayIfInstalled) (installed : shown.installed = e.installed)
    (decoder : shown.decoder = e.decoder) : e'.Stuck way := by
  rw [editor]
  exact h.congr (shown.installed_redisplayIfInstalled.trans installed)
    (shown.decoder_redisplayIfInstalled.trans decoder)

end Edit.Editor.Stuck

/-- A session that reads no character, and programs that do not make the editor accept keys
again. -/
def Session.Deafened (way : KeyDecoder.Progress) (s : Session σ) : Prop :=
  s.editor.Stuck way ∧ s.Follows onwardRules

theorem Session.Deafened.congr (h : s.Deafened way)
    (installed : t.editor.installed = s.editor.installed)
    (decoder : t.editor.decoder = s.editor.decoder) (consumer : t.consumer = s.consumer)
    (registry : t.registry = s.registry) (request : t.request = s.request)
    (completion : t.completion = s.completion) : t.Deafened way :=
  ⟨h.1.congr installed decoder, h.2.congr consumer registry request completion⟩

/-- A decoder whose keys are given up is broken. -/
theorem Session.Deafened.broken (h : s.Deafened .busy) : s.breakKeys.Deafened .broken := by
  refine ⟨⟨by decide, ?_⟩, h.2.congr rfl rfl rfl rfl⟩
  rcases h.1.deaf with removed | ⟨busy, unpasted⟩
  · exact .inl removed
  · refine .inr ?_
    simp only [breakKeys, onEditor, KeyDecoder.giveUp, busy, if_true, unpasted, and_self]

end LineShell
