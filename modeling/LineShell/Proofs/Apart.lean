import LineShell.Proofs.Inputs
import LineShell.Proofs.Runs

/-!
# Shells side by side

Two shells are side by side if they differ at most in what they have written and reported, in where
their input comes from, and in a draft that is not to come back. Programs and keys leave them so. A
flag tells whether they also agree in whether a carriage return came last, which only a line feed
asks for.
-/

namespace LineShell

open Act Edit Session

variable {σ : Type} {s s' t t' : Session σ} {latched : Prop}

/-! ### Editors apart -/

namespace Edit.Editor

/-- An editor without the prompts that it was given, what it has written, the draft, and whether a
carriage return came last. -/
def plain (e : Editor) : Editor :=
  { e with given := [], writes := [], midRow := false, draft := [], afterReturn := false }

/-- Two editors differ at most in the prompts that they were given, in what they have written, in a
draft that is not to come back, and, unless `latched`, in whether a carriage return came last. -/
structure Apart (latched : Prop) (e e' : Editor) : Prop where
  plain : e'.plain = e.plain
  draft : e.recalled = none ∨ e'.draft = e.draft
  latch : latched → e'.afterReturn = e.afterReturn

variable {e e' : Editor}

theorem Apart.change {f : Editor → Editor} (h : Apart latched e e')
    (plain : ∀ e, (f e).plain = (f e.plain).plain)
    (kept : ∀ e, (f e).draft = e.draft ∧ (f e).recalled = e.recalled ∧
      (f e).afterReturn = e.afterReturn) : Apart latched (f e) (f e') where
  plain := (plain e').trans (h.plain ▸ (plain e).symm)
  draft := by
    obtain ⟨draft, recalled, -⟩ := kept e
    rw [recalled, draft, (kept e').1]
    exact h.draft
  latch := fun l => (kept e').2.2.trans ((h.latch l).trans (kept e).2.2.symm)

theorem Apart.writes {f : Editor → Editor} (h : Apart latched e e')
    (kept : ∀ e, (f e).plain = e.plain ∧ (f e).draft = e.draft ∧
      (f e).afterReturn = e.afterReturn) : Apart latched (f e) (f e') :=
  h.change (fun e => (kept e).1.trans (kept e.plain).1.symm) fun e =>
    ⟨(kept e).2.1, congrArg (·.recalled) (kept e).1, (kept e).2.2⟩

theorem Apart.print (h : Apart latched e e') (text : String) :
    Apart latched (e.print text) (e'.print text) := by
  refine h.writes (f := (·.print text)) fun e => ?_
  obtain ⟨writes, midRow, hp⟩ := e.print_frame text
  rw [hp]
  exact ⟨rfl, rfl, rfl⟩

theorem Apart.redisplayIfInstalled (h : Apart latched e e') :
    Apart latched e.redisplayIfInstalled e'.redisplayIfInstalled := by
  refine h.writes fun e => ?_
  unfold Editor.redisplayIfInstalled
  split <;> exact ⟨rfl, rfl, rfl⟩

theorem Apart.redisplay (h : Apart latched e e') : Apart latched e.redisplay e'.redisplay :=
  h.change (fun _ => rfl) fun _ => ⟨rfl, rfl, rfl⟩

theorem Apart.beginRecall (h : Apart latched e e') :
    Apart latched e.beginRecall e'.beginRecall ∧ e'.beginRecall.draft = e.beginRecall.draft := by
  have recalled : e'.recalled = e.recalled := congrArg (·.recalled) h.plain
  have line : e'.line = e.line := congrArg (·.line) h.plain
  unfold Editor.beginRecall
  rw [recalled]
  cases hr : e.recalled with
  | some i => exact ⟨h, h.draft.resolve_left (by simp [hr])⟩
  | none =>
      -- The walk begins, and the present line becomes the draft of both.
      have draft : e'.line.text = e.line.text := congrArg (·.text) line
      have plain := congrArg
        (fun e : Editor => { e with recalled := some e.history.entries.length }) h.plain
      exact ⟨⟨plain, .inr draft, h.latch⟩, draft⟩

theorem Apart.recallOlder (h : Apart latched e e') :
    Apart latched e.recallOlder.1 e'.recallOlder.1 ∧ e'.recallOlder.2 = e.recallOlder.2 := by
  have empty : e'.history.entries.isEmpty = e.history.entries.isEmpty :=
    congrArg (·.history.entries.isEmpty) h.plain
  obtain ⟨begun, draft⟩ := h.beginRecall
  have recalled : e'.beginRecall.recalled = e.beginRecall.recalled :=
    congrArg (·.recalled) begun.plain
  have entries : e'.beginRecall.history.entries = e.beginRecall.history.entries :=
    congrArg (·.history.entries) begun.plain
  have moved : ∀ i, Apart latched { e.beginRecall with recalled := some i }
      { e'.beginRecall with recalled := some i } := fun i =>
    ⟨congrArg (fun e : Editor => { e with recalled := some i }) begun.plain, .inr draft,
      begun.latch⟩
  unfold Editor.recallOlder
  simp only [empty, recalled]
  split
  · exact ⟨h, rfl⟩
  · split
    · rename_i i _
      simp only [entries]
      split
      · rename_i entry _
        exact ⟨(moved i).change (f := (·.replaceLine entry.toList)) (fun _ => rfl)
          fun _ => ⟨rfl, rfl, rfl⟩, rfl⟩
      · exact ⟨moved i, rfl⟩
    · exact ⟨begun, rfl⟩

/-- A walk to a newer entry comes back to the same draft. -/
theorem Apart.recallNewer (h : Apart latched e e') :
    Apart latched e.recallNewer e'.recallNewer := by
  have recalled : e'.recalled = e.recalled := congrArg (·.recalled) h.plain
  have entries : e'.history.entries = e.history.entries := congrArg (·.history.entries) h.plain
  unfold Editor.recallNewer
  rw [recalled, entries]
  cases hr : e.recalled with
  | none => exact h
  | some i =>
      have draft : e'.draft = e.draft := h.draft.resolve_left (by simp [hr])
      simp only
      split
      · rename_i entry _
        exact ⟨congrArg (fun e : Editor =>
          { e with recalled := some (i + 1), line := Line.ofText entry.toList }) h.plain,
          .inr draft, h.latch⟩
      · simp only [draft]
        exact ⟨congrArg (fun e₀ : Editor =>
          { e₀ with recalled := none, line := Line.ofText e.draft }) h.plain, .inl rfl, h.latch⟩

theorem Apart.keyedAs (h : Apart True e e') : e.KeyedAs e' where
  line := congrArg (·.line) h.plain
  decoder := congrArg (·.decoder) h.plain
  installed := congrArg (·.installed) h.plain
  handling := congrArg (·.handling) h.plain
  afterReturn := h.latch trivial
  missing := h.recallOlder.2

end Edit.Editor

/-! ### Sessions apart -/

namespace Session

def frame (s : Session σ) : Session σ :=
  { s with
    host := { s.host with errors := [], printed := [] }
    editor := {}, journal := [], input := none, reader := none
    channel := { loopFaults := s.channel.loopFaults } }

/-- What an input is, as far as it can be told when it is given up: a source, open or not, or
something unknown. -/
def attached (s : Session σ) : Option (Option Bool) :=
  s.input.map fun
    | .source source => some source.isOpen
    | .unknown => none

/-- Two sessions differ at most in where their input comes from, in what they have reported, and in
what editors apart differ in. -/
structure Apart (latched : Prop) (s s' : Session σ) : Prop where
  frame : s'.frame = s.frame
  editor : Editor.Apart latched s.editor s'.editor
  attached : s'.attached = s.attached

theorem Apart.similar (h : s.Apart latched s') : s.Similar s' where
  store := congrArg (·.host.store) h.frame
  library := congrArg (·.host.library) h.frame
  env := congrArg (·.host.env) h.frame
  places := congrArg (·.host.places) h.frame
  logTime := congrArg (·.host.logTime) h.frame
  entryTime := congrArg (·.host.entryTime) h.frame
  log := congrArg (·.host.log) h.frame
  history := congrArg (·.history) h.editor.plain
  registry := congrArg (·.registry) h.frame
  completion := congrArg (·.completion) h.frame
  consumer := congrArg (·.consumer) h.frame
  request := congrArg (·.request) h.frame
  input := by simpa [Session.attached] using congrArg Option.isSome h.attached
  loop := congrArg (·.loop) h.frame
  bridge := congrArg (·.bridge) h.frame
  settings := congrArg (·.settings) h.frame
  colours := congrArg (·.colours) h.frame
  programs := congrArg (·.programs) h.frame

/-- A change that is the same in both sessions, the editor apart. -/
theorem Apart.change {f : Session σ → Session σ} {also : Prop} (h : s.Apart latched s')
    (frame : ∀ s : Session σ, (f s).frame = (f s.frame).frame)
    (input : ∀ s : Session σ, (f s).input = s.input)
    (editor : Editor.Apart also (f s).editor (f s').editor) : (f s).Apart also (f s') where
  frame := (frame s').trans (h.frame ▸ (frame s).symm)
  editor := editor
  attached := by rw [Session.attached, Session.attached, input, input]; exact h.attached

theorem Apart.onEditor {also : Prop} (h : s.Apart latched s') {f : Editor → Editor}
    (editor : Editor.Apart also (f s.editor) (f s'.editor)) :
    (s.onEditor f).Apart also (s'.onEditor f) :=
  h.change (f := (·.onEditor f)) (fun _ => rfl) (fun _ => rfl) editor

end Session

theorem Change.frame {rules : Rules} {f : Session σ → Session σ} (c : Change rules s f)
    (t : Session σ) : (f t).frame = (f t.frame).frame := by
  have prompt : ∀ (t : Session σ) text, (t.setPrompt text).frame = t.frame := by
    intro t text
    unfold setPrompt
    split <;> rfl
  cases c with
  | prompt text => exact (prompt t text).trans (prompt t.frame text).symm
  | _ => rfl

theorem Change.input {rules : Rules} {f : Session σ → Session σ} (c : Change rules s f)
    (t : Session σ) : (f t).input = t.input := by
  cases c with
  | prompt text =>
      simp only [setPrompt]
      split <;> rfl
  | _ => rfl

theorem Change.editor {rules : Rules} {f : Session σ → Session σ} (c : Change rules s f)
    (h : s.Apart latched s') : Editor.Apart latched (f s).editor (f s').editor := by
  have edit : ∀ g : Editor → Editor, (∀ e, (g e).plain = (g e.plain).plain) →
      (∀ e, (g e).draft = e.draft ∧ (g e).recalled = e.recalled ∧
        (g e).afterReturn = e.afterReturn) → Editor.Apart latched (g s.editor) (g s'.editor) :=
    fun g => h.editor.change
  cases c with
  | print text => exact h.editor.print text
  | @ask label message callback data =>
      simp only [Session.onEditor, h.similar.colours]
      exact (edit (fun e => { e.savePrompt with
        message := some (requestMessage s.colours label message) }) (fun _ => rfl)
        fun _ => ⟨rfl, rfl, rfl⟩).redisplayIfInstalled
  | answer =>
      exact (edit (fun e => { e with message := e.saved.headD none, saved := e.saved.tail })
        (fun _ => rfl) fun _ => ⟨rfl, rfl, rfl⟩).redisplayIfInstalled
  | remember history store =>
      exact edit ({ · with history }) (fun _ => rfl) fun _ => ⟨rfl, rfl, rfl⟩
  | retire => exact edit (·.remove) (fun _ => rfl) fun _ => ⟨rfl, rfl, rfl⟩
  | prompt text =>
      simp only [setPrompt, h.similar.loop]
      split
      · exact (edit (·.give text) (fun _ => rfl)
          fun _ => ⟨rfl, rfl, rfl⟩).redisplayIfInstalled
      · exact h.editor
  | interrupt =>
      exact edit (fun e => ((e.replaceLine []).newRow).redisplay) (fun _ => rfl)
        fun _ => ⟨rfl, rfl, rfl⟩
  | terminate =>
      exact edit (fun e => ((e.replaceLine []).newRow).remove) (fun _ => rfl)
        fun _ => ⟨rfl, rfl, rfl⟩
  | adopt starts settings =>
      exact edit (fun e => { e with
        eraseEmptyLine := settings.shell.eraseEmptyLine
        history := { e.history with limit := settings.shell.historyLength } }) (fun _ => rfl)
        fun _ => ⟨rfl, rfl, rfl⟩
  | load starts history => exact edit ({ · with history }) (fun _ => rfl) fun _ => ⟨rfl, rfl, rfl⟩
  | begin =>
      simp only [beginRun, Session.onEditor, h.similar.settings]
      exact edit (·.install s.settings.shell.prompt) (fun _ => rfl) fun _ => ⟨rfl, rfl, rfl⟩
  | @install prompt => exact edit (·.install prompt) (fun _ => rfl) fun _ => ⟨rfl, rfl, rfl⟩
  | _ => exact h.editor

def SideBySide (latched : Prop) : Link σ :=
  fun s s' => s.Apart latched s' ∧ s.consumer = .commands

theorem stable_sideBySide : Stable (σ := σ) freeRules (SideBySide latched) :=
  Exact.stable ⟨fun h => h.1.similar, fun h => held_custom.2 (follows_free h.2), fun h c =>
    ⟨h.1.change c.frame c.input (c.editor h.1), (c.follows (follows_free h.2)).consumer⟩⟩

theorem SideBySide.onEditor {also : Prop} (h : SideBySide latched s s') {f : Editor → Editor}
    (editor : Editor.Apart also (f s.editor) (f s'.editor)) :
    SideBySide also (s.onEditor f) (s'.onEditor f) :=
  ⟨h.1.onEditor editor, h.2⟩

theorem SideBySide.edit (h : SideBySide latched s s') {f : Editor → Editor}
    (plain : ∀ e, (f e).plain = (f e.plain).plain)
    (kept : ∀ e, (f e).draft = e.draft ∧ (f e).recalled = e.recalled ∧
      (f e).afterReturn = e.afterReturn) :
    SideBySide latched (s.onEditor f) (s'.onEditor f) :=
  h.onEditor (h.1.editor.change plain kept)

/-- Changes that concern neither the editor nor the input. -/
theorem SideBySide.change (h : SideBySide latched s s') {f : Session σ → Session σ}
    (frame : ∀ s, (f s).frame = (f s.frame).frame)
    (kept : ∀ s, (f s).editor = s.editor ∧ (f s).input = s.input ∧ (f s).consumer = s.consumer) :
    SideBySide latched (f s) (f s') := by
  obtain ⟨editor, -, consumer⟩ := kept s
  refine ⟨h.1.change frame (fun t => (kept t).2.1) ?_, consumer.trans h.2⟩
  rw [editor, (kept s').1]
  exact h.1.editor

theorem KeyChange.sideBySide {f : Session σ → Session σ} (c : KeyChange freeRules s f)
    (h : SideBySide latched s s') : SideBySide latched (f s) (f s') := by
  cases c with
  | edit f =>
      exact h.edit (f := fun e => { e with line := f e.line }.redisplay) (fun _ => rfl)
        fun _ => ⟨rfl, rfl, rfl⟩
  | newer =>
      exact h.onEditor (f := fun e => e.recallNewer.redisplay) h.1.editor.recallNewer.redisplay
  | older =>
      exact h.onEditor (f := fun e => e.recallOlder.1.redisplay) h.1.editor.recallOlder.1.redisplay
  | astray => exact h.onEditor (f := fun e => e.recallOlder.1) h.1.editor.recallOlder.1
  | list rows =>
      exact h.edit (f := fun e => (e.emit (.listing rows)).redisplay) (fun _ => rfl)
        fun _ => ⟨rfl, rfl, rfl⟩
  | draw => exact h.edit (fun _ => rfl) fun _ => ⟨rfl, rfl, rfl⟩
  | hook g => exact h.change (f := (·.setDisplayHook g)) (fun _ => rfl) fun _ => ⟨rfl, rfl, rfl⟩
  | attempt nothing =>
      exact h.change (f := (·.setAttemptOver nothing)) (fun _ => rfl) fun _ => ⟨rfl, rfl, rfl⟩
  | afterReturn b =>
      exact h.onEditor (f := ({ · with afterReturn := b }))
        ⟨h.1.editor.plain, h.1.editor.draft, fun _ => rfl⟩
  | decode g =>
      exact h.edit (f := fun e => { e with decoder := g e.decoder }) (fun _ => rfl)
        fun _ => ⟨rfl, rfl, rfl⟩

theorem SideBySide.beginLine (h : SideBySide latched s s') :
    SideBySide latched s.beginLine s'.beginLine := by
  have begun : ∀ e : Editor,
      ({ e.endRow with line := {}, recalled := none, handling := true } : Editor).plain =
        { e.plain with line := {}, recalled := none, handling := true } ∧
      e.endRow.afterReturn = e.afterReturn := by
    intro e
    unfold Editor.endRow
    split <;> exact ⟨rfl, rfl⟩
  have plain := congrArg (fun e : Editor =>
    { e with line := {}, recalled := none, handling := true }) h.1.editor.plain
  refine h.onEditor ⟨?_, .inl rfl, fun l => ?_⟩
  · exact (begun s'.editor).1.trans (plain.trans (begun s.editor).1.symm)
  · exact (begun s'.editor).2.trans ((h.1.editor.latch l).trans (begun s.editor).2.symm)

theorem SideBySide.showQuit (h : SideBySide latched s s') :
    SideBySide latched s.showQuit s'.showQuit := by
  refine ⟨h.1.change (f := Session.showQuit) (fun _ => rfl) (fun _ => rfl) ?_, h.2⟩
  exact h.1.editor.change (f := fun e =>
    ((({ e with handling := true }.insertText "quit".toList).redisplay).newRow).remove)
    (fun _ => rfl) fun _ => ⟨rfl, rfl, rfl⟩

theorem keys_sideBySide : KeysKeep (σ := σ) freeRules (SideBySide True) (SideBySide True)
    fun _ => SideBySide True where
  idle := stable_sideBySide
  busy := stable_sideBySide
  keyed h := h.1.editor.keyedAs
  change h c := c.sideBySide h
  failed h := h
  begin h _ := h.beginLine
  leave := by
    intro s s' h
    have left := h.edit (f := ({ · with handling := false })) (fun _ => rfl)
      fun _ => ⟨rfl, rfl, rfl⟩
    exact left.onEditor left.1.editor.redisplayIfInstalled
  givenUp h _ := h.edit (fun _ => rfl) fun _ => ⟨rfl, rfl, rfl⟩
  endInput h := h.showQuit
  drop h _ := h.edit (fun _ => rfl) fun _ => ⟨rfl, rfl, rfl⟩
  broken h := h.edit (fun _ => rfl) fun _ => ⟨rfl, rfl, rfl⟩

theorem Edit.Editor.Apart.edits {op : Operation} {f : Editor → Editor} {e e' : Editor}
    (h : Editor.Apart latched e e') (edits : op.edits? = some f) :
    Editor.Apart latched (f e) (f e') := by
  have shown : ∀ g : Editor → Editor, (∀ e, (g e).plain = (g e.plain).plain) →
      (∀ e, (g e).draft = e.draft ∧ (g e).recalled = e.recalled ∧
        (g e).afterReturn = e.afterReturn) →
      Editor.Apart latched (g e).redisplayIfInstalled (g e').redisplayIfInstalled :=
    fun g plain kept => (h.change plain kept).redisplayIfInstalled
  cases op with
  | editorPrompt prompt =>
      cases edits
      exact shown (·.give prompt) (fun _ => rfl) fun _ => ⟨rfl, rfl, rfl⟩
  | restorePrompt =>
      cases edits
      exact shown (fun e => { e with message := e.saved.headD none, saved := e.saved.tail })
        (fun _ => rfl) fun _ => ⟨rfl, rfl, rfl⟩
  | message text =>
      cases edits
      exact shown ({ · with message := some text }) (fun _ => rfl) fun _ => ⟨rfl, rfl, rfl⟩
  | write text =>
      cases edits
      refine h.writes (f := (·.write text)) fun e => ?_
      unfold Editor.write
      split <;> exact ⟨rfl, rfl, rfl⟩
  | replaceLine text =>
      cases edits
      exact h.change (f := (·.replaceLine text.toList)) (fun _ => rfl) fun _ => ⟨rfl, rfl, rfl⟩
  | insertText text =>
      cases edits
      exact h.change (f := (·.insertText text.toList)) (fun _ => rfl) fun _ => ⟨rfl, rfl, rfl⟩
  | movePoint position =>
      cases edits
      exact h.change (f := (·.movePoint position)) (fun _ => rfl) fun _ => ⟨rfl, rfl, rfl⟩
  | remove | savePrompt | clearMessage | redisplay | newRow =>
      cases edits
      exact h.change (fun _ => rfl) fun _ => ⟨rfl, rfl, rfl⟩
  | _ => cases edits

/-! ### The input and the end of a session -/

theorem SideBySide.logAll (h : SideBySide latched s s') (es es' : List Log.Event) :
    SideBySide latched (s.logAll es) (s'.logAll es') := by
  obtain ⟨_, _, _, hl⟩ := s.logAll_frame es
  obtain ⟨_, _, _, hl'⟩ := s'.logAll_frame es'
  rw [hl, hl']
  exact ⟨⟨h.1.frame, ⟨h.1.editor.plain, h.1.editor.draft, h.1.editor.latch⟩, h.1.attached⟩, h.2⟩

theorem SideBySide.log (h : SideBySide latched s s') (e e' : Log.Event) :
    SideBySide latched (s.log e) (s'.log e') :=
  h.logAll [e] [e']

theorem SideBySide.inlet (h : SideBySide latched s s') {input input' : Option Attachment}
    (reader reader' : Option Input.Source) {channel channel' : Input.Channel}
    (attached : ({ s' with input := input' } : Session σ).attached =
      ({ s with input } : Session σ).attached)
    (faults : channel.loopFaults = s.channel.loopFaults)
    (faults' : channel'.loopFaults = s'.channel.loopFaults) :
    SideBySide latched { s with input, reader, channel }
      { s' with input := input', reader := reader', channel := channel' } := by
  refine ⟨⟨?_, h.1.editor, attached⟩, h.2⟩
  have same : channel'.loopFaults = channel.loopFaults :=
    faults'.trans ((congrArg (·.channel.loopFaults) h.1.frame).trans faults.symm)
  have frame := congrArg
    (fun s : Session σ => { s with channel := { loopFaults := channel.loopFaults } }) h.1.frame
  simp only [Session.frame] at frame ⊢
  rw [same]
  exact frame

theorem lockstep_attach (descriptor : Nat) :
    Lockstep (σ := σ) (SideBySide latched) (Session.attach descriptor) (SideBySide latched)
      fun _ => SideBySide latched := by
  intro s s' h
  simp only [Session.attach, result_get_bind]
  rw [h.1.similar.input, h.1.similar.loop]
  split
  · exact (ends_ok ..).2 h
  · split
    · exact (ends_error ..).2 h
    · have faults : s'.channel.loopFaults = s.channel.loopFaults :=
        congrArg (·.channel.loopFaults) h.1.frame
      obtain ⟨failure, opened, kept⟩ := Input.Source.openOn_eq
        (show (Input.Source.mk descriptor false none .start).isOpen = false from rfl) s.channel
      obtain ⟨failure', opened', kept'⟩ := Input.Source.openOn_eq
        (show (Input.Source.mk descriptor false none .start).isOpen = false from rfl) s'.channel
      generalize (Input.Source.mk descriptor false none .start).openOn s.channel = o
        at failure opened kept ⊢
      generalize (Input.Source.mk descriptor false none .start).openOn s'.channel = o'
        at failure' opened' kept' ⊢
      rw [faults] at failure' opened'
      have begun : SideBySide latched { s with channel := o.channel }
          { s' with channel := o'.channel } :=
        h.inlet _ _ h.1.attached kept kept'
      have logged := begun.logAll o.events o'.events
      simp only [result_modify_bind, failure, failure']
      cases hf : s.channel.loopFaults.lookup .watch with
      | some f => exact (ends_error ..).2 logged
      | none =>
          have same : o'.source.isOpen = o.source.isOpen := opened'.trans opened.symm
          have given : SideBySide latched
              { ({ s with channel := o.channel } : Session σ).logAll o.events with
                input := some (.source o.source), reader := some o.source }
              { ({ s' with channel := o'.channel } : Session σ).logAll o'.events with
                input := some (.source o'.source), reader := some o'.source } :=
            logged.inlet _ _ (by simp [Session.attached, same]) rfl rfl
          exact (ends_ok ..).2 (given.log _ _)

theorem lockstep_detach :
    Lockstep (σ := σ) (SideBySide latched) Session.detach (SideBySide latched)
      fun _ => SideBySide latched := by
  intro s s' h
  have faults : s'.channel.loopFaults = s.channel.loopFaults :=
    congrArg (·.channel.loopFaults) h.1.frame
  have attached := h.1.attached
  simp only [Session.detach, result_get_bind]
  rcases hi : s.input with _ | source | _ <;> rcases hi' : s'.input with _ | source' | _ <;>
    simp only [Session.attached, hi, hi', Option.map_none, Option.map_some, reduceCtorEq,
      Option.some.injEq] at attached
  · exact (ends_ok ..).2 h
  · have failed : (source'.closeOn s'.channel).failure = (source.closeOn s.channel).failure := by
      rw [Input.Source.failure_closeOn, Input.Source.failure_closeOn, attached, faults]
    have closed : SideBySide latched
        { s with input := none, channel := (source.closeOn s.channel).channel }
        { s' with input := none, channel := (source'.closeOn s'.channel).channel } :=
      h.inlet _ _ rfl (Input.Source.loopFaults_closeOn ..) (Input.Source.loopFaults_closeOn ..)
    have logged := closed.logAll (source.closeOn s.channel).events
      (source'.closeOn s'.channel).events
    simp only [result_modify_bind, failed]
    cases (source.closeOn s.channel).failure with
    | some f => exact (ends_error ..).2 logged
    | none =>
        have freed := logged.inlet none none logged.1.attached rfl rfl
        exact (ends_ok ..).2 (freed.log _ _)
  · have closed : SideBySide latched { s with input := none } { s' with input := none } :=
      h.inlet _ _ rfl rfl rfl
    exact (ends_ok ..).2 closed

theorem lockstep_adoptBridge (o : SignalBridge.Outcome) :
    Lockstep (σ := σ) (SideBySide latched) (adoptBridge o) (SideBySide latched)
      fun _ => SideBySide latched := by
  intro s s' h
  have reported : ∀ (lines : List String) {s s' : Session σ}, SideBySide latched s s' →
      SideBySide latched (lines.foldl reportLine s) (lines.foldl reportLine s') := by
    intro lines
    induction lines with
    | nil => exact fun h => h
    | cons line lines ih =>
        exact fun h => ih (h.change (f := (·.reportLine line)) (fun _ => rfl)
          fun _ => ⟨rfl, rfl, rfl⟩)
  have adopted : SideBySide latched { s with bridge := o.bridge } { s' with bridge := o.bridge } :=
    h.change (f := ({ · with bridge := o.bridge })) (fun _ => rfl) fun _ => ⟨rfl, rfl, rfl⟩
  have logged := (reported o.lines adopted).logAll o.events o.events
  simp only [adoptBridge, result_modify_bind]
  cases o.failure with
  | some f => exact (ends_error ..).2 logged
  | none => exact (ends_ok ..).2 logged

theorem lockstep_tearDown {call : Program σ → Act σ Reply}
    (hc : Runs freeRules (SideBySide latched) call) :
    Lockstep (SideBySide latched) (Session.tearDown call) (SideBySide latched)
      fun _ => SideBySide latched := by
  intro s s' h
  have torn : s'.tornDown = s.tornDown := congrArg (·.tornDown) h.1.frame
  simp only [Session.tearDown, result_get_bind, torn]
  split
  · exact (ends_ok ..).2 h
  · have begun : SideBySide latched { s with tornDown := true } { s' with tornDown := true } :=
      h.change (f := ({ · with tornDown := true })) (fun _ => rfl) fun _ => ⟨rfl, rfl, rfl⟩
    simp only [result_modify_bind]
    refine Ends.bind ((stable_sideBySide.release hc "" begun).weaken (fun _ _ ht => ht)
      fun _ _ _ ht => ht.1) fun _ t t' ht => ?_
    refine Ends.bind (lockstep_detach t t' ht) fun _ u u' hu => ?_
    have bridge : u'.bridge = u.bridge := congrArg (·.bridge) hu.1.frame
    simp only [result_get_bind, bridge]
    refine Ends.bind (lockstep_adoptBridge _ u u' hu) fun _ v v' hv => ?_
    have shown := hv.1.editor.edits
      (show (Operation.message "").edits? = some (·.showMessage "") from rfl)
    have left : SideBySide latched v.leaveScreen v'.leaveScreen :=
      ⟨hv.1.change (f := leaveScreen) (fun _ => rfl) (fun _ => rfl)
        (shown.change (f := fun e => (e.clearMessage).remove) (fun _ => rfl)
          fun _ => ⟨rfl, rfl, rfl⟩), hv.2⟩
    exact Ends.closeDown (congrArg (·.host.settings.log) hv.1.frame) left fun h =>
      h.change (f := ({ · with loop := none })) (fun _ => rfl) fun _ => ⟨rfl, rfl, rfl⟩

theorem closed_sideBySide : Closed (σ := σ) freeRules (SideBySide True) := by
  refine Closed.ofKeys keys_sideBySide (fun h _ edits => h.onEditor (h.1.editor.edits edits))
    (fun h => h.edit (fun _ => rfl) fun _ => ⟨rfl, rfl, rfl⟩) (fun _ h => h.onEditor ?blank)
    (fun line _ h => h.edit (fun _ => rfl) fun _ => ⟨rfl, rfl, rfl⟩)
    (fun d _ => lockstep_attach d) (fun _ => lockstep_detach) fun _ => lockstep_tearDown
  refine h.1.editor.writes fun e => ?_
  unfold Editor.blank
  split <;> exact ⟨rfl, rfl, rfl⟩

theorem SideBySide.weaken (h : SideBySide latched s s') : SideBySide False s s' :=
  ⟨⟨h.1.frame, ⟨h.1.editor.plain, h.1.editor.draft, False.elim⟩, h.1.attached⟩, h.2⟩

/-- Behind a failure it does not matter what came last. -/
theorem Act.Ends.unlatch {α : Type} {Q : Link σ} {x y : Except Interrupt α × Session σ}
    (h : Ends Q (fun _ => SideBySide True) x y) : Ends Q (fun _ => SideBySide False) x y :=
  h.weaken (fun _ _ ht => ht) fun _ _ _ => SideBySide.weaken

end LineShell
