import LineShell.Proofs.Tinted

/-!
# Keys and colours

Keys draw the edit line and hand lines on, and the operations on the editor and on the input change
one part of a shell each. None of them goes by colours, so that two shells which differ in nothing
else are left so by all of them.
-/

namespace LineShell

open Act Edit Session Colour

variable {σ : Type} {custom : Custom σ} {P : Settings → Prop} {s s' : Session σ}

/-! ### Keys -/

theorem KeyChange.tinted {f : Session σ → Session σ} (c : KeyChange custom s f)
    (h : s.Tinted s') : (f s).Tinted (f s') := by
  cases c with
  | edit f =>
      exact h.onEditor (h.editor.change (f := fun e => { e with line := f e.line })
        fun _ _ _ _ _ _ => rfl).redisplay
  | newer => exact h.onEditor h.editor.recallNewer.redisplay
  | older => exact h.onEditor h.editor.recallOlder.1.redisplay
  | astray => exact h.onEditor h.editor.recallOlder.1
  | list rows => exact h.onEditor (h.editor.emit rfl).redisplay
  | draw => exact h.onEditor h.editor.redisplay
  | hook g => exact h.change (f := (·.setDisplayHook g)) (fun _ => rfl) (fun _ => rfl) h.editor
  | attempt nothing =>
      exact h.change (f := (·.setAttemptOver nothing)) (fun _ => rfl) (fun _ => rfl) h.editor
  | afterReturn b =>
      exact h.onEditor (h.editor.change (f := ({ · with afterReturn := b })) fun _ _ _ _ _ _ => rfl)
  | decode g =>
      exact h.onEditor (h.editor.change (f := fun e => { e with decoder := g e.decoder })
        fun _ _ _ _ _ _ => rfl)

/-- What an operation does to the editor alone it does alike. -/
theorem Edit.Editor.Tinted.edits {e e' : Editor} (h : e.Tinted e') {op : Operation}
    {f : Editor → Editor} (edits : op.edits? = some f) : (f e).Tinted (f e') := by
  cases op with
  | remove =>
      cases edits
      exact h.change (f := (·.remove)) fun _ _ _ _ _ _ => rfl
  | editorPrompt prompt =>
      cases edits
      exact h.setPrompt rfl
  | savePrompt =>
      cases edits
      exact h.savePrompt
  | restorePrompt =>
      cases edits
      exact h.restorePrompt
  | message text =>
      cases edits
      exact h.showMessage rfl
  | clearMessage =>
      cases edits
      exact h.clearMessage
  | write text =>
      cases edits
      exact h.write (.refl (fun _ => True) text) trivial
  | redisplay =>
      cases edits
      exact h.redisplay
  | newRow =>
      cases edits
      exact h.newRow
  | replaceLine text =>
      cases edits
      exact h.change (f := (·.replaceLine text.toList)) fun _ _ _ _ _ _ => rfl
  | insertText text =>
      cases edits
      exact h.change (f := (·.insertText text.toList)) fun _ _ _ _ _ _ => rfl
  | movePoint position =>
      cases edits
      exact h.change (f := (·.movePoint position)) fun _ _ _ _ _ _ => rfl
  | _ => cases edits

namespace Tint

theorem onEditor (h : Tint custom P s s') {f f' : Editor → Editor}
    (editor : (f s.editor).Tinted (f' s'.editor)) :
    Tint custom P (s.onEditor f) (s'.onEditor f') :=
  ⟨h.1.onEditor editor, h.2.1.congr rfl rfl rfl rfl, h.2.2⟩

theorem setPrompt (h : Tint custom P s s') {prompt prompt' : String}
    (same : unpaint prompt' = unpaint prompt) :
    Tint custom P (s.setPrompt prompt) (s'.setPrompt prompt') := by
  unfold Session.setPrompt
  rw [h.1.akin.loop]
  split
  · exact h.onEditor (h.1.editor.setPrompt same)
  · exact h

theorem change (h : Tint custom P s s') {f : Session σ → Session σ}
    (rest : ∀ s, (f s).colourless = (f s.colourless).colourless)
    (kept : ∀ s, ((f s).host.library, (f s).host.env) = (s.host.library, s.host.env) ∧
      (f s).editor = s.editor ∧ (f s).settings = s.settings ∧ (f s).consumer = s.consumer ∧
      (f s).registry = s.registry ∧ (f s).request = s.request ∧ (f s).completion = s.completion) :
    Tint custom P (f s) (f s') := by
  obtain ⟨-, editor, settings, consumer, registry, request, completion⟩ := kept s
  refine ⟨h.1.change rest (fun s => (kept s).1) ?_,
    h.2.1.congr consumer registry request completion, ?_⟩
  · rw [editor, (kept s').2.1]
    exact h.1.editor
  · rw [settings]
    exact h.2.2

theorem keep (st : Stable custom (Tint (σ := σ) custom P)) :
    KeysKeep custom (Tint custom P) (Tint custom P) fun _ => Tint custom P where
  idle := st
  busy := st
  keyed h := h.1.editor.keyedAs
  change {s s' f} h c := by
    have settings : (f s).settings = s.settings := by cases c <;> rfl
    refine ⟨c.tinted h.1, c.held h.2.1, ?_⟩
    rw [settings]
    exact h.2.2
  failed h := h
  begin h _ := h.onEditor (h.1.editor.endRow.change
    (f := ({ · with line := {}, recalled := none, handling := true })) fun _ _ _ _ _ _ => rfl)
  leave h := (h.onEditor (h.1.editor.change (f := ({ · with handling := false }))
    fun _ _ _ _ _ _ => rfl)).onEditor
      (h.1.editor.change (f := ({ · with handling := false }))
        fun _ _ _ _ _ _ => rfl).redisplayIfInstalled
  givenUp h _ := h.onEditor (h.1.editor.change (f := ({ · with handling := false }))
    fun _ _ _ _ _ _ => rfl)
  endInput h := by
    have typed := h.1.editor.change
      (f := fun e => { e with handling := true }.insertText "quit".toList) fun _ _ _ _ _ _ => rfl
    have shown := typed.redisplay.newRow.change (f := (·.remove)) fun _ _ _ _ _ _ => rfl
    exact (h.onEditor shown).change (f := ({ · with quitting := true })) (fun _ => rfl)
      fun _ => ⟨rfl, rfl, rfl, rfl, rfl, rfl, rfl⟩
  drop h _ := h.onEditor (h.1.editor.change (f := ({ · with handling := false, line := {} }))
    fun _ _ _ _ _ _ => rfl)
  broken h := h.onEditor (h.1.editor.change
    (f := fun e => { e with decoder := e.decoder.giveUp }) fun _ _ _ _ _ _ => rfl)

/-! ### Input and the end -/

variable (st : Stable custom (Tint (σ := σ) custom P))
include st

theorem lockstep_attach (descriptor : Nat) :
    Lockstep (Tint (σ := σ) custom P) (Session.attach descriptor) (Tint custom P)
      fun _ => Tint custom P := by
  intro s s' h
  have channel : s'.channel = s.channel := congrArg (·.channel) h.1.rest
  simp only [Session.attach, result_get_bind]
  rw [h.1.akin.input, h.1.akin.loop, channel]
  split
  · exact (ends_ok ..).2 h
  · split
    · exact (ends_error ..).2 h
    · generalize (Input.Source.mk descriptor false none .start).openOn s.channel = o
      have opened :
          Tint custom P { s with channel := o.channel } { s' with channel := o.channel } :=
        h.change (f := ({ · with channel := o.channel })) (fun _ => rfl)
          fun _ => ⟨rfl, rfl, rfl, rfl, rfl, rfl, rfl⟩
      have logged := st.logAll o.events opened
      simp only [result_modify_bind]
      cases o.failure with
      | some failure => exact (ends_error ..).2 logged
      | none =>
          have given := logged.change
            (f := ({ · with input := some (.source o.source), reader := some o.source }))
            (fun _ => rfl) fun _ => ⟨rfl, rfl, rfl, rfl, rfl, rfl, rfl⟩
          exact (ends_ok ..).2 (st.log _ given)

theorem lockstep_detach :
    Lockstep (Tint (σ := σ) custom P) Session.detach (Tint custom P) fun _ => Tint custom P := by
  intro s s' h
  have channel : s'.channel = s.channel := congrArg (·.channel) h.1.rest
  have input : s'.input = s.input := congrArg (·.input) h.1.rest
  simp only [Session.detach, result_get_bind]
  rw [input, channel]
  rcases s.input with _ | source | _
  · exact (ends_ok ..).2 h
  · simp only [result_modify_bind]
    generalize source.closeOn s.channel = o
    have closed : Tint custom P { s with input := none, channel := o.channel }
        { s' with input := none, channel := o.channel } :=
      h.change (f := ({ · with input := none, channel := o.channel })) (fun _ => rfl)
        fun _ => ⟨rfl, rfl, rfl, rfl, rfl, rfl, rfl⟩
    have logged := st.logAll o.events closed
    cases o.failure with
    | some failure => exact (ends_error ..).2 logged
    | none =>
        have freed := logged.change (f := ({ · with reader := none })) (fun _ => rfl)
          fun _ => ⟨rfl, rfl, rfl, rfl, rfl, rfl, rfl⟩
        exact (ends_ok ..).2 (st.log _ freed)
  · exact (ends_ok ..).2 (h.change (f := ({ · with input := none })) (fun _ => rfl)
      fun _ => ⟨rfl, rfl, rfl, rfl, rfl, rfl, rfl⟩)

theorem lockstep_adoptBridge (o : SignalBridge.Outcome) :
    Lockstep (Tint (σ := σ) custom P) (adoptBridge o) (Tint custom P) fun _ => Tint custom P := by
  intro s s' h
  have adopted : Tint custom P { s with bridge := o.bridge } { s' with bridge := o.bridge } :=
    h.change (f := ({ · with bridge := o.bridge })) (fun _ => rfl)
      fun _ => ⟨rfl, rfl, rfl, rfl, rfl, rfl, rfl⟩
  have reported := Steady.foldl (f := reportLine) (R := Tint custom P)
    (fun line _ _ h => st.step (.report line) h rfl rfl) o.lines adopted
  have logged := st.logAll o.events reported
  simp only [adoptBridge, result_modify_bind]
  cases o.failure with
  | some failure => exact (ends_error ..).2 logged
  | none => exact (ends_ok ..).2 logged

theorem lockstep_tearDown {call : Program σ → Act σ Reply} (hc : Runs custom (Tint custom P) call) :
    Lockstep (Tint custom P) (Session.tearDown call) (Tint custom P) fun _ => Tint custom P := by
  intro s s' h
  have torn : s'.tornDown = s.tornDown := congrArg (·.tornDown) h.1.rest
  simp only [Session.tearDown, result_get_bind, torn]
  split
  · exact (ends_ok ..).2 h
  · have begun : Tint custom P { s with tornDown := true } { s' with tornDown := true } :=
      h.change (f := ({ · with tornDown := true })) (fun _ => rfl)
        fun _ => ⟨rfl, rfl, rfl, rfl, rfl, rfl, rfl⟩
    simp only [result_modify_bind]
    refine Ends.bind ((st.release hc "" begun).weaken (fun _ _ ht => ht)
      fun _ _ _ ht => ht.1) fun _ t t' ht => ?_
    refine Ends.bind (lockstep_detach st t t' ht) fun _ u u' hu => ?_
    simp only [result_get_bind, hu.1.akin.bridge]
    refine Ends.bind (lockstep_adoptBridge st _ u u' hu) fun _ v v' hv => ?_
    have cleared := (hv.1.editor.showMessage (show unpaint "" = unpaint "" from rfl)).clearMessage
    have removed := cleared.change (f := (·.remove)) fun _ _ _ _ _ _ => rfl
    have left : Tint custom P v.leaveScreen v'.leaveScreen :=
      ⟨hv.1.change (f := leaveScreen) (fun _ => rfl) (fun _ => rfl) removed,
        hv.2.1.congr rfl rfl rfl rfl, hv.2.2⟩
    exact Ends.closeDown (congrArg (·.host.settings.log) hv.1.rest) left fun h =>
      h.change (f := ({ · with loop := none })) (fun _ => rfl)
        fun _ => ⟨rfl, rfl, rfl, rfl, rfl, rfl, rfl⟩

/-- Programs that are bound leave no difference but colours, whatever they use. -/
theorem closed : Closed custom (Tint (σ := σ) custom P) := by
  refine Closed.ofKeys (keep st) (fun h _ edits => h.onEditor (h.1.editor.edits edits)) ?quit
    (fun _ h => h.onEditor h.1.editor.blank) (fun line _ h => h.onEditor (h.1.editor.resume line))
    (fun d _ => lockstep_attach st d) (fun _ => lockstep_detach st)
    fun _ hc => lockstep_tearDown st hc
  intro s s' h
  have typed := h.1.editor.change (f := (·.insertText "quit".toList)) fun _ _ _ _ _ _ => rfl
  exact h.onEditor typed.redisplay.newRow

end Tint

end LineShell
