import LineShell.Session.Beginning
import LineShell.Proofs.Runs
import LineShell.Proofs.Unpainted
import LineShell.Proofs.Variables

/-!
# Shells in other colours

Two shells differ in nothing but colours if all that they hold is the same, except for whether and
where colours are in use, and if their prompts, their messages and what they have written are the
same without colour codes. Whatever is done to both of them alike leaves them so.
-/

namespace LineShell

open Act Edit Session Colour

variable {σ : Type} {s s' : Session σ}

/-! ### Editors -/

namespace Edit.Editor

/-- Two editors differ in nothing but the colours of what they show and have written. -/
structure Tinted (e e' : Editor) : Prop where
  rest : e' = { e with
    prompt := e'.prompt, given := e'.given, message := e'.message, saved := e'.saved
    writes := e'.writes }
  prompt : unpaint e'.prompt = unpaint e.prompt
  given : e'.given.map unpaint = e.given.map unpaint
  message : e'.message.map unpaint = e.message.map unpaint
  saved : e'.saved.map (·.map unpaint) = e.saved.map (·.map unpaint)
  writes : unpaint (textOf e'.writes) = unpaint (textOf e.writes)

theorem Tinted.refl (e : Editor) : e.Tinted e := by
  constructor <;> rfl

variable {e e' : Editor}

/-- A change that neither shows nor writes anything, and does not depend on what has been shown. -/
theorem Tinted.change {f : Editor → Editor} (h : e.Tinted e')
    (frame : ∀ (e : Editor) prompt given message saved writes,
      f { e with prompt, given, message, saved, writes } =
        { f e with prompt, given, message, saved, writes }) : (f e).Tinted (f e') := by
  have left : f e = { f e with
      prompt := e.prompt, given := e.given, message := e.message, saved := e.saved
      writes := e.writes } :=
    frame e e.prompt e.given e.message e.saved e.writes
  have right : f e' = { f e with
      prompt := e'.prompt, given := e'.given, message := e'.message, saved := e'.saved
      writes := e'.writes } :=
    (congrArg f h.rest).trans (frame e _ _ _ _ _)
  rw [left, right]
  exact ⟨rfl, h.prompt, h.given, h.message, h.saved, h.writes⟩

theorem Tinted.active (h : e.Tinted e') : e'.active = e.active := by
  rw [h.rest]
  rfl

theorem Tinted.visiblePrompt (h : e.Tinted e') :
    unpaint e'.visiblePrompt = unpaint e.visiblePrompt := by
  have shown : ∀ e : Editor,
      unpaint e.visiblePrompt = (e.message.map unpaint).getD (unpaint e.prompt) := by
    intro e
    unfold Editor.visiblePrompt
    cases e.message <;> rfl
  rw [shown, shown, h.message, h.prompt]

theorem Tinted.emit (h : e.Tinted e') {w w' : Write}
    (reads : (unpaint (textOf e.writes)).2.run w'.text.toList =
      (unpaint (textOf e.writes)).2.run w.text.toList) : (e.emit w).Tinted (e'.emit w') where
  rest := congrArg (·.emit w') h.rest
  prompt := h.prompt
  given := h.given
  message := h.message
  saved := h.saved
  writes := by
    simp only [Editor.emit, unpaint_textOf_cons, h.writes, reads]

theorem Tinted.redisplay (h : e.Tinted e') : e.redisplay.Tinted e'.redisplay := by
  have midRow : e'.midRow = e.midRow := congrArg (·.midRow) h.rest
  have line : e'.line = e.line := congrArg (·.line) h.rest
  have phase : e'.phase = e.phase := congrArg (·.phase) h.rest
  unfold Editor.redisplay
  rw [midRow, line, phase]
  exact (h.emit (run_redraw h.visiblePrompt _ _ _ _)).change (f := ({ · with midRow := false }))
    fun _ _ _ _ _ _ => rfl

theorem Tinted.redisplayIfInstalled (h : e.Tinted e') :
    e.redisplayIfInstalled.Tinted e'.redisplayIfInstalled := by
  have installed : e'.installed = e.installed := congrArg (·.installed) h.rest
  unfold Editor.redisplayIfInstalled
  rw [installed]
  split
  · exact h.redisplay
  · exact h

theorem Tinted.newRow (h : e.Tinted e') : e.newRow.Tinted e'.newRow :=
  (h.emit (w := .newRow) rfl).change (f := ({ · with midRow := false })) fun _ _ _ _ _ _ => rfl

theorem Tinted.blank (h : e.Tinted e') : e.blank.Tinted e'.blank := by
  unfold Editor.blank
  rw [h.active]
  split
  · exact h.emit rfl
  · exact h

theorem Tinted.resume (h : e.Tinted e') (line : Line) :
    (e.resume line).Tinted (e'.resume line) :=
  (h.change (f := ({ · with line })) fun _ _ _ _ _ _ => rfl).redisplay

theorem Tinted.endRow (h : e.Tinted e') : e.endRow.Tinted e'.endRow := by
  have line : e'.line = e.line := congrArg (·.line) h.rest
  have erases : e'.eraseEmptyLine = e.eraseEmptyLine := congrArg (·.eraseEmptyLine) h.rest
  unfold Editor.endRow
  rw [line, erases]
  split
  · exact h.emit rfl
  · exact h.newRow

/-! Output -/

/-- What is open where the next output begins: nothing if the edit line is blanked before it. -/
def outset (e : Editor) : Scan := if e.active then .text else (unpaint (textOf e.writes)).2

theorem Tinted.write (h : e.Tinted e') {text text' : String} {outset : Scan → Prop}
    (twins : Twins outset text text') (begins : outset (unpaint (textOf e.writes)).2) :
    (e.write text).Tinted (e'.write text') := by
  unfold Editor.write
  by_cases empty : text = ""
  · rw [if_pos empty, if_pos (twins.empty.2 empty)]
    exact h
  · have full : text' ≠ "" := fun h' => empty (twins.empty.1 h')
    rw [if_neg empty, if_neg full]
    have ends : decide (text'.toList.getLast? ≠ some '\n') =
        decide (text.toList.getLast? ≠ some '\n') := by
      simp only [ne_eq, twins.ends]
    rw [ends]
    have emitted : (e.emit (.output text e.phase)).Tinted
        (e'.emit (.output text' e'.phase)) :=
      h.emit (twins.reads _ begins)
    exact emitted.change (f := ({ · with midRow := _ })) fun _ _ _ _ _ _ => rfl

theorem Tinted.print (h : e.Tinted e') {text text' : String} {outset : Scan → Prop}
    (twins : Twins outset text text') (begins : outset e.outset) :
    (e.print text).Tinted (e'.print text') := by
  have line : e'.line = e.line := congrArg (·.line) h.rest
  unfold Editor.print
  rw [h.active, line]
  unfold Editor.outset at begins
  split
  · rename_i active
    rw [if_pos active] at begins
    refine (h.blank.write twins ?_).resume _
    -- The row has been emptied, so that no code is open.
    simpa only [Editor.blank, active, ite_true, Editor.emit, unpaint_textOf_cons, Write.text,
      run_clearRow] using begins
  · rename_i idle
    rw [if_neg idle] at begins
    exact h.write twins begins

/-! Prompts and messages -/

theorem Tinted.give (h : e.Tinted e') {prompt prompt' : String}
    (same : unpaint prompt' = unpaint prompt) : (e.give prompt).Tinted (e'.give prompt') where
  rest := congrArg (·.give prompt') h.rest
  prompt := same
  given := by simp only [Editor.give, List.map_cons, same, h.given]
  message := h.message
  saved := h.saved
  writes := h.writes

theorem Tinted.withMessage (h : e.Tinted e') {message message' : Option String}
    (same : message'.map unpaint = message.map unpaint) :
    Tinted { e with message } { e' with message := message' } where
  rest := congrArg ({ · with message := message' }) h.rest
  prompt := h.prompt
  given := h.given
  message := same
  saved := h.saved
  writes := h.writes

theorem Tinted.withSaved (h : e.Tinted e') {saved saved' : List (Option String)}
    (same : saved'.map (·.map unpaint) = saved.map (·.map unpaint)) :
    Tinted { e with saved } { e' with saved := saved' } where
  rest := congrArg ({ · with saved := saved' }) h.rest
  prompt := h.prompt
  given := h.given
  message := h.message
  saved := same
  writes := h.writes

theorem Tinted.setPrompt (h : e.Tinted e') {prompt prompt' : String}
    (same : unpaint prompt' = unpaint prompt) :
    (e.setPrompt prompt).Tinted (e'.setPrompt prompt') :=
  (h.give same).redisplayIfInstalled

theorem Tinted.install (h : e.Tinted e') (prompt : String) :
    (e.install prompt).Tinted (e'.install prompt) := by
  have given : (e.give prompt).Tinted (e'.give prompt) := h.give rfl
  have begun := given.change (f := ({ · with installed := true, handling := false }))
    fun _ _ _ _ _ _ => rfl
  exact begun.redisplay

theorem Tinted.savePrompt (h : e.Tinted e') : e.savePrompt.Tinted e'.savePrompt :=
  h.withSaved (by rw [List.map_cons, List.map_cons, h.message, h.saved])

theorem Tinted.showMessage (h : e.Tinted e') {text text' : String}
    (same : unpaint text' = unpaint text) :
    (e.showMessage text).Tinted (e'.showMessage text') := by
  have shown : (some text').map unpaint = (some text).map unpaint := congrArg some same
  exact (h.withMessage shown).redisplayIfInstalled

theorem Tinted.restorePrompt (h : e.Tinted e') : e.restorePrompt.Tinted e'.restorePrompt := by
  have first : (e'.saved.headD none).map unpaint = (e.saved.headD none).map unpaint := by
    have heads := congrArg (·.headD none) h.saved
    rcases hs : e.saved with _ | _ <;> rcases hs' : e'.saved with _ | _ <;> simp_all
  have others : e'.saved.tail.map (·.map unpaint) = e.saved.tail.map (·.map unpaint) := by
    simpa only [List.map_tail] using congrArg List.tail h.saved
  exact ((h.withMessage first).withSaved others).redisplayIfInstalled

theorem Tinted.clearMessage (h : e.Tinted e') : e.clearMessage.Tinted e'.clearMessage := by
  have gone : Tinted { e with message := none } { e' with message := none } := h.withMessage rfl
  exact gone.withSaved rfl

/-! Walks through the history -/

theorem Tinted.beginRecall (h : e.Tinted e') : e.beginRecall.Tinted e'.beginRecall := by
  have recalled : e'.recalled = e.recalled := congrArg (·.recalled) h.rest
  unfold Editor.beginRecall
  rw [recalled]
  split
  · exact h
  · exact h.change (f := fun e =>
      { e with draft := e.line.text, recalled := some e.history.entries.length })
      fun _ _ _ _ _ _ => rfl

theorem Tinted.recallOlder (h : e.Tinted e') :
    e.recallOlder.1.Tinted e'.recallOlder.1 ∧ e'.recallOlder.2 = e.recallOlder.2 := by
  have empty : e'.history.entries.isEmpty = e.history.entries.isEmpty :=
    congrArg (·.history.entries.isEmpty) h.rest
  have begun := h.beginRecall
  have recalled : e'.beginRecall.recalled = e.beginRecall.recalled :=
    congrArg (·.recalled) begun.rest
  have entries : e'.beginRecall.history.entries = e.beginRecall.history.entries :=
    congrArg (·.history.entries) begun.rest
  unfold Editor.recallOlder
  simp only [empty, recalled]
  split
  · exact ⟨h, rfl⟩
  · split
    · rename_i i _
      have moved := begun.change (f := ({ · with recalled := some i })) fun _ _ _ _ _ _ => rfl
      simp only [entries]
      split
      · rename_i entry _
        exact ⟨moved.change (f := (·.replaceLine entry.toList)) fun _ _ _ _ _ _ => rfl, rfl⟩
      · exact ⟨moved, rfl⟩
    · exact ⟨begun, rfl⟩

theorem Tinted.recallNewer (h : e.Tinted e') : e.recallNewer.Tinted e'.recallNewer := by
  have recalled : e'.recalled = e.recalled := congrArg (·.recalled) h.rest
  have entries : e'.history.entries = e.history.entries := congrArg (·.history.entries) h.rest
  unfold Editor.recallNewer
  rw [recalled, entries]
  cases e.recalled with
  | none => exact h
  | some i =>
      simp only
      split
      · rename_i entry _
        exact h.change (f := fun e => { e with recalled := some (i + 1) }.replaceLine entry.toList)
          fun _ _ _ _ _ _ => rfl
      · exact h.change (f := fun e => { e with recalled := none }.replaceLine e.draft)
          fun _ _ _ _ _ _ => rfl

theorem Tinted.keyedAs (h : e.Tinted e') : e.KeyedAs e' where
  line := congrArg (·.line) h.rest
  decoder := congrArg (·.decoder) h.rest
  installed := congrArg (·.installed) h.rest
  handling := congrArg (·.handling) h.rest
  afterReturn := congrArg (·.afterReturn) h.rest
  missing := h.recallOlder.2

end Edit.Editor

/-! ### Sessions -/

namespace Session

/-- A session without its editor, and without what it says about colours. -/
def colourless (s : Session σ) : Session σ :=
  { s with
    host := { s.host with env := [], settings := s.host.settings.colourless }
    editor := {}, journal := [], settings := s.settings.colourless, colours := false }

/-- Two sessions differ in nothing but colours. -/
structure Tinted (s s' : Session σ) : Prop where
  rest : s'.colourless = s.colourless
  env : Settings.Environment.Tinted s.host.library s.host.env s'.host.env
  editor : s.editor.Tinted s'.editor

theorem Tinted.akin (h : s.Tinted s') : s.Akin s' where
  store := congrArg (·.host.store) h.rest
  width := h.env.width
  places := congrArg (·.host.places) h.rest
  logTime := congrArg (·.host.logTime) h.rest
  entryTime := congrArg (·.host.entryTime) h.rest
  log := congrArg (·.host.log) h.rest
  history := congrArg (·.history) h.editor.rest
  registry := congrArg (·.registry) h.rest
  completion := congrArg (·.completion) h.rest
  consumer := congrArg (·.consumer) h.rest
  request := congrArg (·.request) h.rest
  input := congrArg (·.input.isSome) h.rest
  loop := congrArg (·.loop) h.rest
  bridge := congrArg (·.bridge) h.rest
  programs := congrArg (·.programs) h.rest

theorem Tinted.change {f : Session σ → Session σ} (h : s.Tinted s')
    (rest : ∀ s : Session σ, (f s).colourless = (f s.colourless).colourless)
    (env : ∀ s : Session σ,
      ((f s).host.library, (f s).host.env) = (s.host.library, s.host.env))
    (editor : (f s).editor.Tinted (f s').editor) : (f s).Tinted (f s') where
  rest := (rest s').trans (h.rest ▸ (rest s).symm)
  env := by
    obtain ⟨library, before⟩ := Prod.mk.inj (env s)
    rw [library, before, (Prod.mk.inj (env s')).2]
    exact h.env
  editor := editor

theorem Tinted.onEditor (h : s.Tinted s') {f f' : Editor → Editor}
    (editor : (f s.editor).Tinted (f' s'.editor)) :
    (s.onEditor f).Tinted (s'.onEditor f') :=
  ⟨h.rest, h.env, editor⟩

theorem Tinted.printText (h : s.Tinted s') {text text' : String} {outset : Scan → Prop}
    (twins : Twins outset text text') (begins : outset s.editor.outset) :
    (s.printText text).Tinted (s'.printText text') :=
  h.onEditor (h.editor.print twins begins)

theorem Tinted.setPrompt (h : s.Tinted s') {prompt prompt' : String}
    (same : unpaint prompt' = unpaint prompt) :
    (s.setPrompt prompt).Tinted (s'.setPrompt prompt') := by
  unfold Session.setPrompt
  rw [h.akin.loop]
  split
  · exact h.onEditor (h.editor.setPrompt same)
  · exact h

theorem Tinted.applySettings (h : s.Tinted s') {o o' : Settings}
    (same : o'.colourless = o.colourless) :
    (s.applySettings o).Tinted (s'.applySettings o') where
  rest := by
    have applied : ∀ (s : Session σ) (o : Settings), (s.applySettings o).colourless =
        (s.colourless.applySettings o.colourless).colourless := fun _ _ => rfl
    rw [applied, applied s, h.rest, same]
  env := h.env
  editor := by
    have erases : o'.shell.eraseEmptyLine = o.shell.eraseEmptyLine :=
      congrArg (·.shell.eraseEmptyLine) same
    have limit : o'.shell.historyLength = o.shell.historyLength :=
      congrArg (·.shell.historyLength) same
    simp only [Session.applySettings, Session.onEditor, erases, limit]
    exact h.editor.change (f := fun e => { e with
      eraseEmptyLine := o.shell.eraseEmptyLine
      history := { e.history with limit := o.shell.historyLength } }) fun _ _ _ _ _ _ => rfl

theorem Tinted.configureLog (h : s.Tinted s') : s.configureLog.Tinted s'.configureLog :=
  h.change (f := (·.configureLog)) (fun _ => rfl) (fun _ => rfl) h.editor

theorem Tinted.adoptSettings (h : s.Tinted s') {o o' : Settings}
    (same : o'.colourless = o.colourless) :
    (s.adoptSettings o).Tinted (s'.adoptSettings o') := by
  have adopted : Tinted { s with host := { s.host with settings := o } }
      { s' with host := { s'.host with settings := o' } } := by
    refine ⟨?_, h.env, h.editor⟩
    have kept : ∀ (s : Session σ) (o : Settings),
        colourless { s with host := { s.host with settings := o } } =
          { s.colourless with host := { s.colourless.host with settings := o.colourless } } :=
      fun _ _ => rfl
    rw [kept, kept s, h.rest, same]
  have applied := (adopted.applySettings same).change
    (f := fun s => { s with host := { s.host with screenLog := true } }) (fun _ => rfl)
    (fun _ => rfl) (adopted.applySettings same).editor
  exact applied.configureLog

/-- New shells in environments that say the same of all that is no colour, with settings that do,
differ in nothing but colours. -/
theorem tinted_ofSurroundings {w : Surroundings} {env : Settings.Environment}
    {o o' : Option Settings} {programs : σ} (tinted : Settings.Environment.Tinted .standard w.env env)
    (same : o'.map Settings.colourless = o.map Settings.colourless)
    (made : ofSurroundings w o programs = .ok s)
    (made' : ofSurroundings { w with env } o' programs = .ok s') : s.Tinted s' := by
  have load : (Surroundings.usualSettings { w with env }).map Settings.colourless =
      w.usualSettings.map Settings.colourless := tinted.load id w.store w.places none
  unfold ofSurroundings at made made'
  rcases hu : w.usualSettings with _ | usual <;>
    rcases hu' : Surroundings.usualSettings { w with env } with _ | usual' <;>
    rw [hu, hu'] at load
  · rw [hu] at made
    cases made
  · cases load
  · cases load
  · rw [hu] at made
    rw [hu'] at made'
    cases made
    cases made'
    have usually : usual'.colourless = usual.colourless := Except.ok.inj load
    have wanted : (o'.getD usual').colourless = (o.getD usual).colourless := by
      cases o <;> cases o' <;> simp_all
    have begun : Tinted
        { host := w.host usual, registry := { defaults := ⟨defaultCommands⟩ }, settings := usual,
          programs }
        { host := Surroundings.host { w with env } usual'
          registry := { defaults := ⟨defaultCommands⟩ }, settings := usual', programs } := by
      refine ⟨?_, tinted.mapFault Settings.Trouble.known, .refl _⟩
      simp only [Session.colourless, Surroundings.host, usually]
    exact (begun.applySettings wanted).configureLog

theorem unpaint_requestMessage (colours colours' : Bool) (label message : String) :
    unpaint (requestMessage colours' label message) =
      unpaint (requestMessage colours label message) := by
  have plain : ∀ b, unpaint (requestMessage b label message) =
      Scan.text.run (("[" ++ label ++ "]").toList ++ (" " ++ message ++ " ").toList) := by
    intro b
    have opens : Scan.Opens (" " ++ message ++ " ").toList :=
      ⟨' ', (message ++ " ").toList, by simp, by decide, by decide, by decide⟩
    have before : (Scan.text.run []).2 = .text ∨ Scan.Opens ("[" ++ label ++ "]").toList := .inl rfl
    have painted := run_painted .red b before (.inr opens)
    simpa only [unpaint, requestMessage, String.toList_append, List.nil_append,
      List.append_assoc] using painted
  rw [plain, plain]

end Session

theorem Change.colourless {custom : Custom σ} {f : Session σ → Session σ} (c : Change custom s f)
    (t : Session σ) : (f t).colourless = (f t.colourless).colourless := by
  cases c with
  | prompt text =>
      have kept : ∀ t : Session σ, (t.setPrompt text).colourless = t.colourless := by
        intro t
        unfold setPrompt
        split <;> rfl
      exact (kept t).trans (kept t.colourless).symm
  | _ => rfl

/-- Changes leave the library and the environment and, unless the shell is started, the settings alone. -/
theorem Change.surroundings {custom : Custom σ} {f : Session σ → Session σ} (c : Change custom s f)
    (t : Session σ) : ((f t).host.library, (f t).host.env) = (t.host.library, t.host.env) ∧
      ((f t).settings = t.settings ∨ ∃ argv, custom.uses (.start argv)) := by
  cases c with
  | prompt text =>
      simp only [setPrompt]
      split <;> exact ⟨rfl, .inl rfl⟩
  | @adopt argv starts settings => exact ⟨rfl, .inr ⟨argv, starts⟩⟩
  | _ => exact ⟨rfl, .inl rfl⟩

theorem Change.tints {custom : Custom σ} {f : Session σ → Session σ} (c : Change custom s f)
    (h : s.Tinted s') : (f s).editor.Tinted (f s').editor := by
  have edit : ∀ g : Editor → Editor, (∀ (e : Editor) prompt given message saved writes,
      g { e with prompt, given, message, saved, writes } =
        { g e with prompt, given, message, saved, writes }) →
      (g s.editor).Tinted (g s'.editor) := fun g => h.editor.change
  cases c with
  | print text => exact h.editor.print (.refl (fun _ => True) text) trivial
  | ask => exact h.editor.savePrompt.showMessage (unpaint_requestMessage ..)
  | answer => exact h.editor.restorePrompt
  | remember history store => exact edit ({ · with history }) fun _ _ _ _ _ _ => rfl
  | retire => exact edit (·.remove) fun _ _ _ _ _ _ => rfl
  | prompt text => exact (h.setPrompt rfl).editor
  | interrupt => exact (edit (·.replaceLine []) fun _ _ _ _ _ _ => rfl).newRow.redisplay
  | terminate =>
      have emptied := (edit (·.replaceLine []) fun _ _ _ _ _ _ => rfl).newRow
      exact emptied.change (f := (·.remove)) fun _ _ _ _ _ _ => rfl
  | adopt starts settings => exact (h.adoptSettings rfl).editor
  | load starts history => exact edit ({ · with history }) fun _ _ _ _ _ _ => rfl
  | begin =>
      have prompt : s'.settings.shell.prompt = s.settings.shell.prompt :=
        congrArg (·.settings.shell.prompt) h.rest
      simp only [beginRun, Session.onEditor, prompt]
      exact h.editor.install _
  | install => exact h.editor.install _
  | _ => exact h.editor

theorem Change.tinted {custom : Custom σ} {f : Session σ → Session σ} (c : Change custom s f)
    (h : s.Tinted s') : (f s).Tinted (f s') :=
  h.change c.colourless (fun t => (c.surroundings t).1) (c.tints h)

/-! ### What is painted -/

theorem twins_highlighted {text : String} (opens : Scan.Opens text.toList)
    (colours colours' : Bool) :
    Twins (fun _ => True) (Colour.highlight.paint colours text ++ "\n")
      (Colour.highlight.paint colours' text ++ "\n") := by
  have closes : Scan.Opens ("" ++ "\n").toList :=
    ⟨'\n', [], rfl, by decide, by decide, by decide⟩
  have painted := twins_painted .highlight colours colours' "" text ""
    (fun _ (_ : True) => .inr opens) (.inr closes)
  simpa only [String.empty_append, String.append_empty] using painted

namespace Session

theorem Tinted.printHighlighted (h : s.Tinted s') {text : String}
    (opens : Scan.Opens text.toList) :
    (s.printHighlighted text).Tinted (s'.printHighlighted text) :=
  h.printText (twins_highlighted opens _ _) trivial

/-- Behind a whole row of output no code is open. -/
theorem outset_printText (s : Session σ) (row : String) :
    (s.printText (row ++ "\n")).editor.outset = .text := by
  have same : (s.editor.print (row ++ "\n")).active = s.editor.active := by
    simp only [Editor.active, Editor.installed_print, Editor.handling_print]
  have full : row ++ "\n" ≠ "" := by
    intro h
    simpa using congrArg String.toList h
  simp only [Session.printText, Session.onEditor, Editor.outset, same]
  split
  · rfl
  · rename_i idle
    rw [Editor.print_of_not_active (by simpa using idle), Editor.write_of_ne full]
    simp only [Editor.emit, unpaint_textOf_cons, Write.text, String.toList_append]
    exact Scan.snd_run_concat _ _ (.inr rfl)

end Session

/-- Two sessions differ in nothing but colours, their programs are bound, and the settings have a
property. -/
def Tint (custom : Custom σ) (P : Settings → Prop) : Link σ :=
  fun s s' => s.Tinted s' ∧ s.Held custom ∧ P s.settings

namespace Tint

variable {custom : Custom σ} {P : Settings → Prop}

theorem printText (h : Tint custom P s s') {text text' : String} {outset : Scan → Prop}
    (twins : Twins outset text text') (begins : outset s.editor.outset) :
    Tint custom P (s.printText text) (s'.printText text') :=
  ⟨h.1.printText twins begins, h.2.1.congr rfl rfl rfl rfl, h.2.2⟩

theorem printHighlighted (h : Tint custom P s s') {text : String}
    (opens : Scan.Opens text.toList) :
    Tint custom P (s.printHighlighted text) (s'.printHighlighted text) :=
  h.printText (twins_highlighted opens _ _) trivial

/-- A row of the listing begins behind a whole row, so that a name may hold any text. -/
theorem printRow (h : Tint custom P s s') (e : Command.Entry (Program σ))
    (begins : s.editor.outset = .text) :
    Tint custom P (s.printText (s.highlighted (listingHead e) ++ e.description ++ "\n"))
      (s'.printText (s'.highlighted (listingHead e) ++ e.description ++ "\n")) := by
  have closed : (Scan.text.run (listingHead e).toList).2 = .text := by
    simp only [listingHead, String.toList_append]
    exact Scan.snd_run_concat _ _ (.inl rfl)
  have twins := twins_painted .highlight s.colours s'.colours "" (listingHead e) e.description
    (fun s (text : s = .text) => .inl text) (.inl closed)
  simp only [String.empty_append] at twins
  exact h.printText twins begins

theorem printMenu (h : Tint custom P s s') : Tint custom P s.printMenu s'.printMenu := by
  have heading : Scan.Opens "Available commands:".toList :=
    ⟨'A', _, rfl, by decide, by decide, by decide⟩
  have rule : Scan.Opens "-------------------".toList :=
    ⟨'-', _, rfl, by decide, by decide, by decide⟩
  have head := (h.printHighlighted heading).printHighlighted rule
  have begins := (s.printHighlighted "Available commands:").outset_printText
    ((s.printHighlighted "Available commands:").highlighted "-------------------")
  unfold Session.printMenu
  simp only
  rw [head.1.akin.registry]
  refine (Steady.foldl (R := fun s s' => Tint custom P s s' ∧ s.editor.outset = .text)
    (fun e s s' h => ⟨h.1.printRow e h.2, s.outset_printText _⟩) _ ⟨head, begins⟩).1

/-! ### Changes of programs -/

theorem steady (kept : ∀ argv, custom.uses (.start argv) → ∀ o, P o) :
    Steady custom (Tint (σ := σ) custom P) where
  similar h := h.1.akin
  held h := h.2.1
  change {s s' f} h c := by
    refine ⟨c.tinted h.1, c.held h.2.1, ?_⟩
    obtain ⟨-, same | ⟨argv, starts⟩⟩ := c.surroundings s
    · rw [same]
      exact h.2.2
    · exact kept argv starts _

/-! ### Starting a shell -/

/-- Both sessions go on with settings that differ in nothing but colours, or both are given up. -/
def Settles (R : Link σ) (m : Act σ Settings) (s s' : Session σ) : Prop :=
  (∃ o o', o'.colourless = o.colourless ∧ m.result s = (.ok o, s) ∧ m.result s' = (.ok o', s')) ∨
    ∃ i t t', m.result s = (.error i, t) ∧ m.result s' = (.error i, t') ∧ R t t'

theorem namedSettings (st : Steady custom (Tint custom P)) (h : Tint custom P s s')
    (o : Options) : Settles (Tint custom P) (Session.namedSettings o) s s' := by
  unfold Settles Session.namedSettings
  have library : s'.host.library = s.host.library := congrArg (·.host.library) h.1.rest
  simp only [result_get_bind, h.1.akin.store, h.1.akin.places, library]
  by_cases usual : o.config = ""
  · simp only [if_pos usual, result_pure]
    exact .inl ⟨s.settings, s'.settings, congrArg (·.settings) h.1.rest, rfl, rfl⟩
  · simp only [if_neg usual]
    have load := h.1.env.load .known s.host.store s.host.places (some o.config)
    rcases hl : Settings.loadWith .known s.host.library s.host.store s.host.env s.host.places
      (some o.config) with trouble | settings <;>
    rcases hl' : Settings.loadWith .known s.host.library s.host.store s'.host.env s.host.places
      (some o.config) with trouble' | settings' <;>
    rw [hl, hl'] at load <;> simp only [hl, hl']
    · cases load
      refine .inr ?_
      split
      · exact ⟨_, _, _, rfl, rfl, st.step (.report _) h rfl rfl⟩
      · exact ⟨_, _, _, rfl, rfl, h⟩
    · cases load
    · cases load
    · exact .inl ⟨settings, settings', Except.ok.inj load, rfl, rfl⟩

theorem requestedSettings (st : Steady custom (Tint custom P)) (h : Tint custom P s s')
    (o : Options) : Settles (Tint custom P) (Session.requestedSettings o) s s' := by
  unfold Settles Session.requestedSettings
  rw [result_bind, result_bind]
  obtain ⟨a, a', same, hs, hs'⟩ | ⟨i, t, t', hs, hs', ht⟩ := namedSettings st h o
  · rw [hs, hs']
    refine .inl ⟨_, _, ?_, rfl, rfl⟩
    split
    · exact congrArg (fun o : Settings => { o with log := { o.log with level := "DEBUG" } }) same
    · exact same
  · rw [hs, hs']
    exact .inr ⟨i, t, t', rfl, rfl, ht⟩

theorem startWith (kept : ∀ argv, custom.uses (.start argv) → ∀ o, P o) {argv : List String}
    (starts : custom.uses (.start argv)) (o : Options) (h : Tint custom P s s') :
    Ends (Tint custom P) (GivenUp (Tint custom P) true) ((Session.startWith o).result s)
      ((Session.startWith o).result s') := by
  have st : Steady custom (Tint (σ := σ) custom P) := steady kept
  unfold Session.startWith
  rw [result_bind, result_bind]
  obtain ⟨a, a', same, hs, hs'⟩ | ⟨i, t, t', hs, hs', ht⟩ := requestedSettings st h o
  · have adopted : Tint custom P (s.adoptSettings a) (s'.adoptSettings a') :=
      ⟨h.1.adoptSettings same, h.2.1.congr rfl rfl rfl rfl, kept argv starts _⟩
    have opens : (Session.openHistory a' : Act σ Unit) = Session.openHistory a := by
      have path : a'.historyPath = a.historyPath := by
        change a'.colourless.historyPath = a.colourless.historyPath
        rw [same]
      unfold Session.openHistory
      rw [path]
    have level : (Session.checkLevel a' : Act σ Unit) = Session.checkLevel a := by
      have log : a'.log = a.log := congrArg (·.log) same
      unfold Session.checkLevel Settings.levelFailure
      rw [log]
    rw [hs, hs']
    simp only [result_modify_bind, opens, level]
    refine Ends.bind (Ends.checkLevel a adopted fun _ => .ofTrue adopted) fun _ v v' checked => ?_
    refine Ends.bind (st.openHistory starts a checked) fun _ u u' hu => ?_
    exact (ends_ok ..).2 (st.step (.begin starts) hu rfl rfl)
  · rw [hs, hs']
    exact (ends_error ..).2 (GivenUp.ofTrue ht)

/-- Programs that may not look at colours leave no other difference, however they end, nor do those
that start the shell. -/
theorem stable (blind : ¬ custom.inspects) (kept : ∀ argv, custom.uses (.start argv) → ∀ o, P o) :
    Stable custom (Tint (σ := σ) custom P) where
  toSteady := steady kept
  seen inspects := absurd inspects blind
  invalid h := h.printHighlighted ⟨'I', _, rfl, by decide, by decide, by decide⟩
  failed {s s'} name f h := by
    have opens : Scan.Opens ("Command " ++ name ++ " failed: " ++ f.message).toList := by
      simp only [String.toList_append, List.append_assoc]
      exact Scan.Opens.append ⟨'C', _, rfl, by decide, by decide, by decide⟩ _
    exact ((steady kept).log _ h).printHighlighted opens
  listing := printMenu
  start starts h := (steady kept).startFrom starts (fun o _ => startWith kept starts o h) h

end Tint

end LineShell
