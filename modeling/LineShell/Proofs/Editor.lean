import LineShell.Session.Lifecycle

/-!
# Parts of the editor that operations leave alone

Output, that of the log included, changes only what is written and whether the row is finished;
walking the history changes only the line and the place in the history.
-/

namespace LineShell.Edit.Editor

/-! ### Output -/

theorem active_eq {e : Editor} : e.active = true ↔ e.installed = true ∧ e.handling = false := by
  simp [active]

theorem phase_eq_editing {e : Editor} : e.phase = .editing ↔ e.active = true := by
  unfold phase active
  cases e.installed <;> cases e.handling <;> decide

theorem phase_eq_handling {e : Editor} :
    e.phase = .handling ↔ e.installed = true ∧ e.handling = true := by
  unfold phase
  cases e.installed <;> cases e.handling <;> decide

@[simp] theorem write_empty (e : Editor) : e.write "" = e := rfl

theorem write_of_ne {text : String} (h : text ≠ "") (e : Editor) :
    e.write text =
      { e.emit (.output text e.phase) with midRow := text.toList.getLast? ≠ some '\n' } := if_neg h

@[simp] theorem installed_write (e : Editor) (text : String) :
    (e.write text).installed = e.installed := by
  unfold write
  split <;> rfl

@[simp] theorem handling_write (e : Editor) (text : String) :
    (e.write text).handling = e.handling := by
  unfold write
  split <;> rfl

@[simp] theorem active_write (e : Editor) (text : String) :
    (e.write text).active = e.active := by
  simp [active]

@[simp] theorem line_write (e : Editor) (text : String) : (e.write text).line = e.line := by
  unfold write
  split <;> rfl

/-- While a line is being edited, output stands between a blanking and a drawing of the line. -/
theorem print_of_active {e : Editor} (h : e.active = true) (text : String) :
    e.print text = ((e.emit .clear).write text).resume e.line := by
  simp [print, blank, h]

/-- Otherwise output goes straight through. -/
theorem print_of_not_active {e : Editor} (h : e.active = false) (text : String) :
    e.print text = e.write text := by
  simp [print, h]

@[simp] theorem installed_print (e : Editor) (text : String) :
    (e.print text).installed = e.installed := by
  cases h : e.active with
  | true => exact (congrArg installed (print_of_active h text)).trans (installed_write _ text)
  | false => simp [print_of_not_active h]

@[simp] theorem handling_print (e : Editor) (text : String) :
    (e.print text).handling = e.handling := by
  cases h : e.active with
  | true => exact (congrArg handling (print_of_active h text)).trans (handling_write _ text)
  | false => simp [print_of_not_active h]

theorem print_frame (e : Editor) (text : String) :
    ∃ writes midRow, e.print text = { e with writes, midRow } := by
  have written : ∀ e : Editor, ∃ writes midRow, e.write text = { e with writes, midRow } := by
    intro e
    unfold write
    split
    · exact ⟨e.writes, e.midRow, rfl⟩
    · exact ⟨_, _, rfl⟩
  cases h : e.active with
  | true =>
      obtain ⟨writes, midRow, hw⟩ := written (e.emit .clear)
      rw [print_of_active h, hw]
      exact ⟨_, _, rfl⟩
  | false =>
      rw [print_of_not_active h]
      exact written e

@[simp] theorem installed_redisplayIfInstalled (e : Editor) :
    e.redisplayIfInstalled.installed = e.installed := by
  unfold redisplayIfInstalled
  split <;> rfl

@[simp] theorem handling_redisplayIfInstalled (e : Editor) :
    e.redisplayIfInstalled.handling = e.handling := by
  unfold redisplayIfInstalled
  split <;> rfl

/-! ### The history -/

theorem beginRecall_frame (e : Editor) :
    ∃ draft recalled, e.beginRecall = { e with draft, recalled } := by
  unfold beginRecall
  split
  · exact ⟨e.draft, e.recalled, rfl⟩
  · exact ⟨_, _, rfl⟩

/-- Walking to an older entry changes at most the line, the draft and the position, and not the line
if there is no entry at the position. -/
theorem recallOlder_frame (e : Editor) :
    ∃ line draft recalled, e.recallOlder.1 = { e with line, draft, recalled } ∧
      (e.recallOlder.2 = true → line = e.line) := by
  unfold recallOlder
  split
  · exact ⟨e.line, e.draft, e.recalled, rfl, fun _ => rfl⟩
  · obtain ⟨draft, recalled, hb⟩ := e.beginRecall_frame
    simp only [hb]
    split
    · split
      · exact ⟨_, draft, _, rfl, fun h => nomatch h⟩
      · exact ⟨e.line, draft, _, rfl, fun _ => rfl⟩
    · exact ⟨e.line, draft, recalled, rfl, fun _ => rfl⟩

/-- Walking to a newer entry changes at most the line and the position. -/
theorem recallNewer_frame (e : Editor) :
    ∃ line recalled, e.recallNewer = { e with line, recalled } := by
  unfold recallNewer
  split
  · exact ⟨e.line, e.recalled, rfl⟩
  · split
    · exact ⟨_, _, rfl⟩
    · exact ⟨_, _, rfl⟩

end LineShell.Edit.Editor

namespace LineShell.Session

variable {σ : Type}

theorem log_frame (s : Session σ) (e : Log.Event) :
    ∃ writes midRow errors, s.log e =
      { s with editor := { s.editor with writes, midRow }, host := { s.host with errors } } := by
  have line : ∀ toScreen (t : Session σ) text, ∃ writes midRow errors,
      logLine toScreen t text =
        { t with editor := { t.editor with writes, midRow }, host := { t.host with errors } } := by
    intro toScreen t text
    cases toScreen with
    | true =>
        obtain ⟨writes, midRow, hp⟩ := t.editor.print_frame (text ++ "\n")
        exact ⟨writes, midRow, t.host.errors, by simp [logLine, printText, onEditor, hp]⟩
    | false => exact ⟨t.editor.writes, t.editor.midRow, _, rfl⟩
  have lines : ∀ toScreen (texts : List String) (t : Session σ), ∃ writes midRow errors,
      texts.foldl (logLine toScreen) t =
        { t with editor := { t.editor with writes, midRow }, host := { t.host with errors } } := by
    intro toScreen texts
    induction texts with
    | nil => exact fun t => ⟨t.editor.writes, t.editor.midRow, t.host.errors, rfl⟩
    | cons text texts ih =>
        intro t
        obtain ⟨writes, midRow, errors, h⟩ := line toScreen t text
        rw [List.foldl_cons, h]
        exact ih _
  unfold log
  split
  · exact ⟨s.editor.writes, s.editor.midRow, s.host.errors, rfl⟩
  · exact lines _ _ _

theorem logAll_frame (s : Session σ) (es : List Log.Event) :
    ∃ writes midRow errors, s.logAll es =
      { s with editor := { s.editor with writes, midRow }, host := { s.host with errors } } := by
  induction es generalizing s with
  | nil => exact ⟨s.editor.writes, s.editor.midRow, s.host.errors, rfl⟩
  | cons e es ih =>
      obtain ⟨writes, midRow, errors, h⟩ := s.log_frame e
      obtain ⟨writes', midRow', errors', h'⟩ := ih (s.log e)
      exact ⟨writes', midRow', errors', h'.trans (by rw [h])⟩

/-! ### The end of a shell -/

/-- Asking a shell to end changes what says that keys are accepted, and that the loop is to stop. -/
theorem quit_frame (s : Session σ) :
    ∃ writes midRow errors, s.quit = { s with
      editor := { s.editor with installed := false, decoder := {}, writes, midRow }
      host := { s.host with errors }
      loop := s.loop.map fun l => { l with stopping := true }
      quitting := true } := by
  obtain ⟨writes, midRow, errors, h⟩ :=
    log_frame { s.onEditor (·.remove) with quitting := true } ⟨.debug, "Quit requested", []⟩
  refine ⟨writes, midRow, errors, ?_⟩
  unfold quit
  simp only [h]
  rfl

/-- The first signal that ends a shell throws the line away, too. -/
theorem terminate_frame {s : Session σ} (first : s.bridge.terminated = false) :
    ∃ writes midRow errors, s.terminate = { s with
      editor := { s.editor with
        line := .ofText [], installed := false, decoder := {}, writes, midRow }
      host := { s.host with errors }
      bridge := { s.bridge with terminated := true }
      loop := s.loop.map fun l => { l with stopping := true }
      quitting := true } := by
  let latched := { s with bridge := { s.bridge with terminated := true } }
  obtain ⟨_, _, _, h⟩ := latched.log_frame ⟨.info, "Termination requested by signal", []⟩
  have ended : s.terminate =
      (latched.log ⟨.info, "Termination requested by signal", []⟩).discardLine.quit :=
    if_neg (by simp [first])
  obtain ⟨writes, midRow, errors, h'⟩ :=
    (latched.log ⟨.info, "Termination requested by signal", []⟩).discardLine.quit_frame
  refine ⟨writes, midRow, errors, ended.trans (h'.trans ?_)⟩
  rw [h]
  rfl

end LineShell.Session
