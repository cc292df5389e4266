import LineShell.Proofs.Runs

/-!
# Whatever was written before

A shell does not look back at what it has written; of the row that it is on it only knows whether
text stands there. So shells that differ in nothing else go on alike. They end alike and write the
same, except that the edit line may be drawn on a new row by one of them and not by the other.
-/

namespace LineShell

open Act Edit Session

variable {σ : Type} {s s' : Session σ} {w w' : List Write}

/-! ### Editors -/

/-- A write without regard to the row on which it begins. -/
def Edit.Write.anywhere : Write → Write
  | redraw _ prompt line phase => redraw false prompt line phase
  | w => w

namespace Edit.Editor

variable {e e' : Editor} {f : Editor → Editor}

def unwritten (e : Editor) : Editor :=
  { e with writes := [], midRow := false }

/-- Two editors differ in what they have written before, `w` and `w'`. Since then they have written
the same. -/
structure Echoes (w w' : List Write) (e e' : Editor) : Prop where
  unwritten : e'.unwritten = e.unwritten
  since : ∃ later later', e.writes = later ++ w ∧ e'.writes = later' ++ w' ∧
    later'.map Write.anywhere = later.map Write.anywhere

/-- A change of an editor does not depend on what this has written, apart from the row. -/
structure Heedless (f : Editor → Editor) : Prop where
  unwritten : ∀ e, (f e).unwritten = (f e.unwritten).unwritten
  adds : ∀ e : Editor, (f e).writes = (f { e with writes := [] }).writes ++ e.writes
  added : ∀ e : Editor, (f { e with writes := [] }).writes.map Write.anywhere =
    (f e.unwritten).writes.map Write.anywhere

theorem Echoes.change (h : Echoes w w' e e') (heedless : Heedless f) :
    Echoes w w' (f e) (f e') where
  unwritten := by rw [heedless.unwritten, h.unwritten, ← heedless.unwritten]
  since := by
    obtain ⟨later, later', written, written', same⟩ := h.since
    refine ⟨(f { e with writes := [] }).writes ++ later,
      (f { e' with writes := [] }).writes ++ later', ?_, ?_, ?_⟩
    · rw [heedless.adds, written, List.append_assoc]
    · rw [heedless.adds, written', List.append_assoc]
    · rw [List.map_append, List.map_append, heedless.added, heedless.added, h.unwritten, same]

theorem Heedless.ite {g : Editor → Editor} {c : Editor → Bool}
    (blind : ∀ e writes midRow, c { e with writes, midRow } = c e) (yes : Heedless f)
    (no : Heedless g) : Heedless fun e => if c e then f e else g e := by
  have same : ∀ e : Editor, c e.unwritten = c e ∧ c { e with writes := [] } = c e :=
    fun e => ⟨blind e [] false, blind e [] e.midRow⟩
  constructor <;> intro e <;> obtain ⟨unwritten, begun⟩ := same e <;> cases chosen : c e <;>
    simp only [unwritten, begun, chosen, if_true, Bool.false_eq_true, if_false]
  · exact no.unwritten e
  · exact yes.unwritten e
  · exact no.adds e
  · exact yes.adds e
  · exact no.added e
  · exact yes.added e

theorem heedless_id : Heedless id := ⟨fun _ => rfl, fun _ => rfl, fun _ => rfl⟩

theorem heedless_redisplay : Heedless redisplay := ⟨fun _ => rfl, fun _ => rfl, fun _ => rfl⟩

theorem heedless_redisplayIfInstalled : Heedless redisplayIfInstalled :=
  heedless_redisplay.ite (fun _ _ _ => rfl) heedless_id

theorem heedless_blank : Heedless blank :=
  Heedless.ite (f := (·.emit .clear)) (fun _ _ _ => rfl)
    ⟨fun _ => rfl, fun _ => rfl, fun _ => rfl⟩ heedless_id

theorem heedless_write (text : String) : Heedless (·.write text) := by
  unfold write
  split <;> exact ⟨fun _ => rfl, fun _ => rfl, fun _ => rfl⟩

theorem heedless_print (text : String) : Heedless (·.print text) := by
  have printed : (·.print text) = fun e : Editor =>
      if e.active then ((e.emit .clear).write text).resume e.line else e.write text := by
    funext e
    cases active : e.active with
    | true => simp [print_of_active active]
    | false => simp [print_of_not_active active]
  rw [printed]
  refine Heedless.ite (fun _ _ _ => rfl) ?_ (heedless_write text)
  unfold write
  split <;> exact ⟨fun _ => rfl, fun _ => rfl, fun _ => rfl⟩

theorem heedless_endRow : Heedless endRow :=
  Heedless.ite (f := (·.emit .clear)) (fun _ _ _ => rfl)
    ⟨fun _ => rfl, fun _ => rfl, fun _ => rfl⟩ ⟨fun _ => rfl, fun _ => rfl, fun _ => rfl⟩

/-- A change that does not look at what has been written, and writes nothing. -/
theorem Heedless.silent (unmoved : ∀ (e : Editor) writes midRow,
    f { e with writes, midRow } = { f e with writes, midRow }) : Heedless f := by
  have begun : ∀ e : Editor, (f { e with writes := [] }).writes = [] := fun e =>
    congrArg (·.writes) (unmoved e [] e.midRow)
  have bare : ∀ e : Editor, (f e.unwritten).writes = [] := fun e =>
    congrArg (·.writes) (unmoved e [] false)
  constructor <;> intro e
  · exact (congrArg Editor.unwritten (unmoved e [] false)).symm
  · rw [begun]
    exact congrArg (·.writes) (unmoved e e.writes e.midRow)
  · rw [begun, bare]

theorem beginRecall_over (e : Editor) (writes : List Write) (midRow : Bool) :
    beginRecall { e with writes, midRow } = { e.beginRecall with writes, midRow } := by
  cases recalled : e.recalled <;> simp [beginRecall, recalled]

theorem recallOlder_over (e : Editor) (writes : List Write) (midRow : Bool) :
    recallOlder { e with writes, midRow } =
      ({ e.recallOlder.1 with writes, midRow }, e.recallOlder.2) := by
  unfold recallOlder
  simp only [beginRecall_over]
  split
  · rfl
  · generalize e.beginRecall = b
    cases recalled : b.recalled with
    | none => simp [recalled]
    | some n =>
        cases n with
        | zero => simp [recalled]
        | succ i => cases found : b.history.entries[i]? <;> simp [found, replaceLine]

theorem recallNewer_over (e : Editor) (writes : List Write) (midRow : Bool) :
    recallNewer { e with writes, midRow } = { e.recallNewer with writes, midRow } := by
  unfold recallNewer
  cases recalled : e.recalled with
  | none => simp [recalled]
  | some i => cases found : e.history.entries[i + 1]? <;> simp [found, replaceLine]

namespace Echoes

theorem silent (h : Echoes w w' e e') (f : Editor → Editor) (unmoved : ∀ (e : Editor) writes midRow,
    f { e with writes, midRow } = { f e with writes, midRow }) : Echoes w w' (f e) (f e') :=
  h.change (.silent unmoved)

theorem redisplay (h : Echoes w w' e e') : Echoes w w' e.redisplay e'.redisplay :=
  h.change heedless_redisplay

theorem redisplayIfInstalled (h : Echoes w w' e e') :
    Echoes w w' e.redisplayIfInstalled e'.redisplayIfInstalled :=
  h.change heedless_redisplayIfInstalled

theorem keyedAs (h : Echoes w w' e e') : e.KeyedAs e' where
  line := congrArg (·.line) h.unwritten
  decoder := congrArg (·.decoder) h.unwritten
  installed := congrArg (·.installed) h.unwritten
  handling := congrArg (·.handling) h.unwritten
  afterReturn := congrArg (·.afterReturn) h.unwritten
  missing := by
    have unmoved : ∀ e : Editor, e.unwritten.recallOlder.2 = e.recallOlder.2 := fun e =>
      congrArg (·.2) (e.recallOlder_over [] false)
    rw [← unmoved, ← unmoved e, h.unwritten]

theorem edits {op : Operation} (h : Echoes w w' e e') (edits : op.edits? = some f) :
    Echoes w w' (f e) (f e') := by
  cases op with
  | editorPrompt prompt =>
      cases edits
      exact (h.silent (·.give prompt) fun _ _ _ => rfl).redisplayIfInstalled
  | restorePrompt =>
      cases edits
      exact (h.silent (fun e => { e with message := e.saved.headD none, saved := e.saved.tail })
        fun _ _ _ => rfl).redisplayIfInstalled
  | message text =>
      cases edits
      exact (h.silent ({ · with message := some text }) fun _ _ _ => rfl).redisplayIfInstalled
  | write text =>
      cases edits
      exact h.change (heedless_write text)
  | redisplay | newRow =>
      cases edits
      exact h.change ⟨fun _ => rfl, fun _ => rfl, fun _ => rfl⟩
  | replaceLine text =>
      cases edits
      exact h.silent (·.replaceLine text.toList) fun _ _ _ => rfl
  | insertText text =>
      cases edits
      exact h.silent (·.insertText text.toList) fun _ _ _ => rfl
  | movePoint position =>
      cases edits
      exact h.silent (·.movePoint position) fun _ _ _ => rfl
  | remove | savePrompt | clearMessage =>
      cases edits
      refine h.silent _ ?_
      exact fun _ _ _ => rfl
  | _ => cases edits

end Echoes

end Edit.Editor

/-! ### Shells -/

namespace Session

def rest (s : Session σ) : Session σ :=
  { s with host := { s.host with errors := [] }, editor := {} }

/-- Two sessions differ at most in what they have reported, and in what their editors have written
before. -/
structure Echoes (w w' : List Write) (s s' : Session σ) : Prop where
  rest : s'.rest = s.rest
  editor : Editor.Echoes w w' s.editor s'.editor

theorem Echoes.exists_eq (h : s.Echoes w w' s') :
    ∃ editor errors, s' = { s with editor, host := { s.host with errors } } := by
  refine ⟨s'.editor, s'.host.errors, ?_⟩
  have parts := congrArg
    (fun t : Session σ => { t with
      editor := s'.editor, host := { t.host with errors := s'.host.errors } }) h.rest
  exact parts

theorem Echoes.similar (h : s.Echoes w w' s') : s.Similar s' where
  store := congrArg (·.host.store) h.rest
  library := congrArg (·.host.library) h.rest
  env := congrArg (·.host.env) h.rest
  places := congrArg (·.host.places) h.rest
  logTime := congrArg (·.host.logTime) h.rest
  entryTime := congrArg (·.host.entryTime) h.rest
  log := congrArg (·.host.log) h.rest
  history := congrArg (·.history) h.editor.unwritten
  registry := congrArg (·.registry) h.rest
  completion := congrArg (·.completion) h.rest
  consumer := congrArg (·.consumer) h.rest
  request := congrArg (·.request) h.rest
  input := congrArg (·.input.isSome) h.rest
  loop := congrArg (·.loop) h.rest
  bridge := congrArg (·.bridge) h.rest
  settings := congrArg (·.settings) h.rest
  colours := congrArg (·.colours) h.rest
  programs := congrArg (·.programs) h.rest

end Session

theorem Change.rest {rules : Rules} {f : Session σ → Session σ} (c : Change rules s f)
    (t : Session σ) : (f t).rest = (f t.rest).rest := by
  have prompt : ∀ (t : Session σ) text, (t.setPrompt text).rest = t.rest := by
    intro t text
    unfold setPrompt
    split <;> rfl
  cases c with
  | prompt text => exact (prompt t text).trans (prompt t.rest text).symm
  | _ => rfl

theorem Change.editorEchoes {rules : Rules} {f : Session σ → Session σ} (c : Change rules s f)
    (h : s.Echoes w w' s') : Editor.Echoes w w' (f s).editor (f s').editor := by
  cases c with
  | print text => exact h.editor.change (Editor.heedless_print text)
  | @ask label message callback data =>
      simp only [Session.onEditor, h.similar.colours]
      exact (h.editor.silent (fun e => { e.savePrompt with
        message := some (requestMessage s.colours label message) })
        fun _ _ _ => rfl).redisplayIfInstalled
  | answer =>
      exact (h.editor.silent (fun e => { e with
        message := e.saved.headD none, saved := e.saved.tail })
        fun _ _ _ => rfl).redisplayIfInstalled
  | remember history store => exact h.editor.silent ({ · with history }) fun _ _ _ => rfl
  | retire => exact h.editor.silent (·.remove) fun _ _ _ => rfl
  | prompt text =>
      simp only [setPrompt, h.similar.loop]
      split
      · exact (h.editor.silent (·.give text) fun _ _ _ => rfl).redisplayIfInstalled
      · exact h.editor
  | interrupt =>
      exact h.editor.change (f := fun e => ((e.replaceLine []).newRow).redisplay)
        ⟨fun _ => rfl, fun _ => rfl, fun _ => rfl⟩
  | terminate =>
      exact h.editor.change (f := fun e => ((e.replaceLine []).newRow).remove)
        ⟨fun _ => rfl, fun _ => rfl, fun _ => rfl⟩
  | adopt starts settings =>
      exact h.editor.silent (fun e => { e with
        eraseEmptyLine := settings.shell.eraseEmptyLine
        history := { e.history with limit := settings.shell.historyLength } }) fun _ _ _ => rfl
  | load starts history => exact h.editor.silent ({ · with history }) fun _ _ _ => rfl
  | begin =>
      simp only [beginRun, Session.onEditor, h.similar.settings]
      exact h.editor.change (f := (·.install s.settings.shell.prompt))
        ⟨fun _ => rfl, fun _ => rfl, fun _ => rfl⟩
  | @install prompt =>
      exact h.editor.change (f := (·.install prompt)) ⟨fun _ => rfl, fun _ => rfl, fun _ => rfl⟩
  | _ => exact h.editor

/-- Two sessions go on alike, whatever they have written before, and their lines go to their
commands. -/
def GoOnAlike (w w' : List Write) : Link σ :=
  fun s s' => s.Echoes w w' s' ∧ s.consumer = .commands

theorem stable_goOnAlike : Stable (σ := σ) freeRules (GoOnAlike w w') := by
  refine Exact.stable ⟨fun h => h.1.similar, fun h => held_custom.2 (follows_free h.2), ?_⟩
  intro s s' f h c
  refine ⟨⟨?_, c.editorEchoes h.1⟩, (c.follows (follows_free h.2)).consumer⟩
  rw [c.rest, h.1.rest, ← c.rest]

namespace GoOnAlike

theorem onEditor (h : GoOnAlike w w' s s') {f : Editor → Editor}
    (editor : Editor.Echoes w w' (f s.editor) (f s'.editor)) :
    GoOnAlike w w' (s.onEditor f) (s'.onEditor f) :=
  ⟨⟨h.1.rest, editor⟩, h.2⟩

theorem edit (h : GoOnAlike w w' s s') {f : Editor → Editor} (heedless : Editor.Heedless f) :
    GoOnAlike w w' (s.onEditor f) (s'.onEditor f) :=
  h.onEditor (h.1.editor.change heedless)

theorem silent (h : GoOnAlike w w' s s') {f : Editor → Editor}
    (unmoved : ∀ (e : Editor) writes midRow,
      f { e with writes, midRow } = { f e with writes, midRow }) :
    GoOnAlike w w' (s.onEditor f) (s'.onEditor f) :=
  h.edit (.silent unmoved)

theorem change (h : GoOnAlike w w' s s') {f : Session σ → Session σ}
    (rest : ∀ s, (f s).rest = (f s.rest).rest)
    (kept : ∀ s, (f s).editor = s.editor ∧ (f s).consumer = s.consumer) :
    GoOnAlike w w' (f s) (f s') := by
  refine ⟨⟨?_, ?_⟩, (kept s).2.trans h.2⟩
  · rw [rest, h.1.rest, ← rest]
  · rw [(kept s).1, (kept s').1]
    exact h.1.editor

end GoOnAlike

theorem KeyChange.goOnAlike {f : Session σ → Session σ} (c : KeyChange freeRules s f)
    (h : GoOnAlike w w' s s') : GoOnAlike w w' (f s) (f s') := by
  cases c with
  | edit f =>
      exact h.edit (f := fun e => { e with line := f e.line }.redisplay)
        ⟨fun _ => rfl, fun _ => rfl, fun _ => rfl⟩
  | newer =>
      exact h.onEditor (f := fun e => e.recallNewer.redisplay)
        (h.1.editor.silent _ Editor.recallNewer_over).redisplay
  | older =>
      exact h.onEditor (f := fun e => e.recallOlder.1.redisplay)
        (h.1.editor.silent (·.recallOlder.1)
          fun e writes midRow => congrArg (·.1) (e.recallOlder_over writes midRow)).redisplay
  | astray =>
      exact h.silent fun e writes midRow => congrArg (·.1) (e.recallOlder_over writes midRow)
  | list rows =>
      exact h.edit (f := fun e => (e.emit (.listing rows)).redisplay)
        ⟨fun _ => rfl, fun _ => rfl, fun _ => rfl⟩
  | draw => exact h.edit Editor.heedless_redisplay
  | hook g => exact h.change (f := (·.setDisplayHook g)) (fun _ => rfl) fun _ => ⟨rfl, rfl⟩
  | attempt nothing =>
      exact h.change (f := (·.setAttemptOver nothing)) (fun _ => rfl) fun _ => ⟨rfl, rfl⟩
  | afterReturn b => exact h.silent fun _ _ _ => rfl
  | decode g => exact h.silent fun _ _ _ => rfl

theorem keys_goOnAlike : KeysKeep (σ := σ) freeRules (GoOnAlike w w') (GoOnAlike w w')
    fun _ => GoOnAlike w w' where
  idle := stable_goOnAlike
  busy := stable_goOnAlike
  keyed h := h.1.editor.keyedAs
  change h c := c.goOnAlike h
  failed h := h
  begin h _ := h.onEditor ((h.1.editor.change Editor.heedless_endRow).silent
    ({ · with line := {}, recalled := none, handling := true }) fun _ _ _ => rfl)
  leave h := by
    have left := h.silent (f := ({ · with handling := false })) fun _ _ _ => rfl
    exact left.onEditor left.1.editor.redisplayIfInstalled
  givenUp h _ := h.silent fun _ _ _ => rfl
  endInput h := by
    have shown := h.edit (f := fun e =>
      ((({ e with handling := true }.insertText "quit".toList).redisplay).newRow).remove)
      ⟨fun _ => rfl, fun _ => rfl, fun _ => rfl⟩
    exact shown.change (f := ({ · with quitting := true })) (fun _ => rfl) fun _ => ⟨rfl, rfl⟩
  drop h _ := h.silent fun _ _ _ => rfl
  broken h := h.silent fun _ _ _ => rfl

/-! ### The input and the end of a shell -/

theorem goOnAlike_attach (descriptor : Nat) :
    Lockstep (σ := σ) (GoOnAlike w w') (Session.attach descriptor) (GoOnAlike w w')
      fun _ => GoOnAlike w w' := by
  intro s s' h
  have channel : s'.channel = s.channel := congrArg (·.channel) h.1.rest
  simp only [Session.attach, result_get_bind]
  rw [h.1.similar.input, h.1.similar.loop, channel]
  split
  · exact (ends_ok ..).2 h
  · split
    · exact (ends_error ..).2 h
    · let opened := (Input.Source.mk descriptor false none .start).openOn s.channel
      have logged := stable_goOnAlike.logAll opened.events
        (h.change (f := ({ · with channel := opened.channel })) (fun _ => rfl)
          fun _ => ⟨rfl, rfl⟩)
      simp only [result_modify_bind]
      split
      · exact (ends_error ..).2 logged
      · have given := logged.change (f := ({ · with
          input := some (.source opened.source), reader := some opened.source })) (fun _ => rfl)
          fun _ => ⟨rfl, rfl⟩
        exact (ends_ok ..).2 (stable_goOnAlike.log _ given)

theorem goOnAlike_detach :
    Lockstep (σ := σ) (GoOnAlike w w') Session.detach (GoOnAlike w w')
      fun _ => GoOnAlike w w' := by
  intro s s' h
  have channel : s'.channel = s.channel := congrArg (·.channel) h.1.rest
  have input : s'.input = s.input := congrArg (·.input) h.1.rest
  simp only [Session.detach, result_get_bind]
  rw [input, channel]
  split
  · exact (ends_ok ..).2 h
  · exact (ends_ok ..).2
      (h.change (f := ({ · with input := none })) (fun _ => rfl) fun _ => ⟨rfl, rfl⟩)
  · rename_i source _
    let closed := source.closeOn s.channel
    have logged := stable_goOnAlike.logAll closed.events
      (h.change (f := ({ · with input := none, channel := closed.channel })) (fun _ => rfl)
        fun _ => ⟨rfl, rfl⟩)
    simp only [result_modify_bind]
    split
    · exact (ends_error ..).2 logged
    · have freed := logged.change (f := ({ · with reader := none })) (fun _ => rfl)
        fun _ => ⟨rfl, rfl⟩
      exact (ends_ok ..).2 (stable_goOnAlike.log _ freed)

theorem goOnAlike_adoptBridge (o : SignalBridge.Outcome) :
    Lockstep (σ := σ) (GoOnAlike w w') (adoptBridge o) (GoOnAlike w w')
      fun _ => GoOnAlike w w' := by
  intro s s' h
  have adopted := h.change (f := ({ · with bridge := o.bridge })) (fun _ => rfl)
    fun _ => ⟨rfl, rfl⟩
  have reported := Steady.foldl (R := GoOnAlike w w') (f := reportLine)
    (fun line _ _ h => stable_goOnAlike.change h (.report line)) o.lines adopted
  have logged := stable_goOnAlike.logAll o.events reported
  simp only [adoptBridge, result_modify_bind]
  cases o.failure with
  | some f => exact (ends_error ..).2 logged
  | none => exact (ends_ok ..).2 logged

theorem goOnAlike_tearDown {call : Program σ → Act σ Reply}
    (hc : Runs freeRules (GoOnAlike w w') call) :
    Lockstep (GoOnAlike w w') (Session.tearDown call) (GoOnAlike w w')
      fun _ => GoOnAlike w w' := by
  intro s s' h
  have torn : s'.tornDown = s.tornDown := congrArg (·.tornDown) h.1.rest
  simp only [Session.tearDown, result_get_bind, torn]
  split
  · exact (ends_ok ..).2 h
  · have begun := h.change (f := ({ · with tornDown := true })) (fun _ => rfl)
      fun _ => ⟨rfl, rfl⟩
    simp only [result_modify_bind]
    refine Ends.bind ((stable_goOnAlike.release hc "" begun).weaken (fun _ _ ht => ht)
      fun _ _ _ ht => ht.1) fun _ t t' ht => ?_
    refine Ends.bind (goOnAlike_detach t t' ht) fun _ u u' hu => ?_
    have bridge : u'.bridge = u.bridge := congrArg (·.bridge) hu.1.rest
    simp only [result_get_bind, bridge]
    refine Ends.bind (goOnAlike_adoptBridge _ u u' hu) fun _ v v' hv => ?_
    have shown := hv.1.editor.edits
      (show (Operation.message "").edits? = some (·.showMessage "") from rfl)
    have closed := hv.onEditor (f := fun e => ((e.showMessage "").clearMessage).remove)
      (shown.silent (fun e => (e.clearMessage).remove) fun _ _ _ => rfl)
    have left : GoOnAlike w w' v.leaveScreen v'.leaveScreen := closed.change
      (f := fun t => { t with host := { t.host with screenLog := false } }.configureLog)
      (fun _ => rfl) fun _ => ⟨rfl, rfl⟩
    exact Ends.closeDown (congrArg (·.host.settings.log) hv.1.rest) left fun h =>
      h.change (f := ({ · with loop := none })) (fun _ => rfl) fun _ => ⟨rfl, rfl⟩

/-- Whatever programs do, sessions that differ only in what they have written go on alike. -/
theorem closed_goOnAlike : Closed (σ := σ) freeRules (GoOnAlike w w') :=
  Closed.ofKeys keys_goOnAlike (fun h _ edits => h.onEditor (h.1.editor.edits edits))
    (fun h => h.edit (f := fun e => ((e.insertText "quit".toList).redisplay).newRow)
      ⟨fun _ => rfl, fun _ => rfl, fun _ => rfl⟩)
    (fun _ h => h.edit Editor.heedless_blank)
    (fun line _ h => h.edit (f := (·.resume line)) ⟨fun _ => rfl, fun _ => rfl, fun _ => rfl⟩)
    (fun d _ => goOnAlike_attach d) (fun _ => goOnAlike_detach) fun _ => goOnAlike_tearDown

end LineShell
