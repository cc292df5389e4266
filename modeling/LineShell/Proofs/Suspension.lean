import LineShell.Proofs.Courses

/-!
# Parts with the edit line blanked

A part that is run with the edit line blanked may do everything, also replace the line, feed keys,
hand lines on and blank the line again; and it may be given up. Whatever it does, the line of before
is put back and drawn behind it, and nothing that was written is lost. Whether a line is being
edited is asked once, at the beginning; without one the part is run as it is.
-/

namespace LineShell

open Act Edit Session

variable {σ : Type} {s t : Session σ} {before : List Write} {depth : Nat}

/-! ### What is written stays written -/

namespace Edit.Editor

theorem writes_suffix_emit (e : Editor) (w : Write) : e.writes <:+ (e.emit w).writes :=
  List.suffix_cons ..

theorem writes_suffix_redisplayIfInstalled (e : Editor) :
    e.writes <:+ e.redisplayIfInstalled.writes := by
  unfold redisplayIfInstalled
  split
  · exact e.writes_suffix_emit _
  · exact List.suffix_rfl

theorem writes_suffix_write (e : Editor) (text : String) : e.writes <:+ (e.write text).writes := by
  unfold write
  split
  · exact List.suffix_rfl
  · exact e.writes_suffix_emit _

theorem writes_suffix_blank (e : Editor) : e.writes <:+ e.blank.writes := by
  unfold blank
  split
  · exact e.writes_suffix_emit _
  · exact List.suffix_rfl

theorem writes_suffix_resume (e : Editor) (line : Line) : e.writes <:+ (e.resume line).writes :=
  List.suffix_cons ..

theorem writes_suffix_print (e : Editor) (text : String) : e.writes <:+ (e.print text).writes := by
  unfold print
  split
  · exact (e.writes_suffix_blank.trans (e.blank.writes_suffix_write text)).trans
      (writes_suffix_resume ..)
  · exact e.writes_suffix_write text

theorem writes_suffix_endRow (e : Editor) : e.writes <:+ e.endRow.writes := by
  unfold endRow
  split
  · exact e.writes_suffix_emit _
  · exact e.writes_suffix_emit _

end Edit.Editor

/-- The last writes of a shell are behind some that had been made before. -/
def Session.WroteBehind (before : List Write) (s : Session σ) : Prop :=
  before <:+ s.editor.writes

theorem Session.WroteBehind.redisplayIfInstalled (h : s.WroteBehind before) {e : Editor}
    (editor : t.editor = e.redisplayIfInstalled) (writes : e.writes = s.editor.writes) :
    t.WroteBehind before := by
  have drawn := e.writes_suffix_redisplayIfInstalled
  rw [writes, ← editor] at drawn
  exact h.trans drawn

theorem wroteBehind_change {f : Session σ → Session σ} (h : s.WroteBehind before)
    (c : Change freeRules s f) : (f s).WroteBehind before := by
  cases c with
  | print text => exact h.trans (s.editor.writes_suffix_print text)
  | ask | answer => exact h.redisplayIfInstalled rfl rfl
  | prompt text =>
      simp only [Session.setPrompt]
      split
      · exact h.redisplayIfInstalled rfl rfl
      · exact h
  | interrupt => exact (h.trans (List.suffix_cons ..)).trans (List.suffix_cons ..)
  | terminate | begin | install => exact h.trans (List.suffix_cons ..)
  | _ => exact h

theorem unattached_wroteBehind : Unattached (σ := σ) (WroteBehind before) where
  inlet := fun _ _ _ h => h
  handlers := fun h => h
  torn := fun h => h
  left := by
    intro s h
    have shown : (s.onEditor (·.showMessage "")).WroteBehind before :=
      h.redisplayIfInstalled rfl rfl
    exact shown
  ended := fun h => h

theorem keys_wroteBehind : KeysPreserve (σ := σ) freeRules (WroteBehind before)
    (WroteBehind before) fun _ => WroteBehind before where
  change := by
    intro s f h c
    cases c with
    | edit | draw => exact h.trans (List.suffix_cons ..)
    | list => exact (h.trans (List.suffix_cons ..)).trans (List.suffix_cons ..)
    | newer =>
        obtain ⟨line, recalled, framed⟩ := s.editor.recallNewer_frame
        simp only [WroteBehind, onEditor, framed]
        exact h.trans (List.suffix_cons ..)
    | older =>
        obtain ⟨line, draft, recalled, framed, -⟩ := s.editor.recallOlder_frame
        simp only [WroteBehind, onEditor, framed]
        exact h.trans (List.suffix_cons ..)
    | astray =>
        obtain ⟨line, draft, recalled, framed, -⟩ := s.editor.recallOlder_frame
        simp only [WroteBehind, onEditor, framed]
        exact h
    | hook | attempt | afterReturn | decode => exact h
  failed := id
  begin := fun {s} h _ => h.trans s.editor.writes_suffix_endRow
  leave := fun h => h.redisplayIfInstalled rfl rfl
  givenUp := fun h _ => h
  endInput := fun h => (h.trans (List.suffix_cons ..)).trans (List.suffix_cons ..)
  drop := fun h _ => h
  broken := id

theorem wroteBehind_edit {op : Operation} {f : Editor → Editor} (h : s.WroteBehind before)
    (edits : op.edits? = some f) : (s.onEditor f).WroteBehind before := by
  cases op with
  | write text =>
      cases edits
      exact h.trans (s.editor.writes_suffix_write text)
  | editorPrompt | restorePrompt | message =>
      cases edits
      exact h.redisplayIfInstalled rfl rfl
  | redisplay | newRow =>
      cases edits
      exact h.trans (List.suffix_cons ..)
  | remove | savePrompt | clearMessage | replaceLine | insertText | movePoint =>
      cases edits
      exact h
  | _ => cases edits

theorem closed_wroteBehind :
    Closed freeRules (Invariant (σ := σ) freeRules (WroteBehind before)) :=
  unattached_wroteBehind.toClosed wroteBehind_change keys_wroteBehind
    (fun h _ edits => wroteBehind_edit h edits)
    (fun h => (h.trans (List.suffix_cons ..)).trans (List.suffix_cons ..))
    (fun {s} h => h.trans s.editor.writes_suffix_blank) fun _ h => h.trans (List.suffix_cons ..)

/-- What a program writes comes behind what had been written before, however it ends. -/
theorem writes_of_run (body : Program σ) (commands : s.consumer = .commands) :
    ∃ added, ((body.run (Program.exec depth)).result s).2.editor.writes =
      added ++ s.editor.writes := by
  have begun : s.WroteBehind s.editor.writes ∧ s.Follows freeRules :=
    ⟨List.suffix_rfl, follows_free commands⟩
  obtain ⟨⟨added, same⟩, -⟩ := closed_wroteBehind.left (depth + 1) body.follows_free begun
  exact ⟨added, same.symm⟩

/-! ### The law -/

/-- A line is put back and drawn, whatever the row held. -/
def Session.restored (t : Session σ) (line : Line) : Session σ :=
  { t with editor := { t.editor with
    line, midRow := false
    writes := .redraw t.editor.midRow t.editor.visiblePrompt line t.editor.phase ::
      t.editor.writes } }

/-- How a part ends that a program runs with the edit line blanked. -/
structure SuspensionLaw (depth : Nat) (body : Program σ) (s : Session σ) : Prop where
  /-- It ends as its body does. All else is as the body has left it, but the line and its point are
  those of before and have been drawn. -/
  restored : s.editor.active = true → (suspended (body.run (Program.exec depth))).result s =
    (((body.run (Program.exec depth)).result (s.onEditor (·.emit .clear))).1,
      ((body.run (Program.exec depth)).result (s.onEditor (·.emit .clear))).2.restored
        s.editor.line)
  /-- What the body writes comes between the blanking and the drawing. -/
  between : s.editor.active = true → s.consumer = .commands → ∃ added fresh prompt phase,
    ((suspended (body.run (Program.exec depth))).result s).2.editor.writes =
      .redraw fresh prompt s.editor.line phase :: (added ++ .clear :: s.editor.writes)
  /-- Where no line is being edited, there is nothing but the body. -/
  straight : s.editor.active = false → (suspended (body.run (Program.exec depth))).result s =
    (body.run (Program.exec depth)).result s
  /-- The program goes on behind the part unless it was given up. -/
  goesOn : ∀ next : Program σ, ((Program.suspended body next).run (Program.exec depth)).result s =
    match (suspended (body.run (Program.exec depth))).result s with
    | (.ok _, t) => (next.run (Program.exec depth)).result t
    | (.error i, t) => (.error i, t)

theorem result_suspended_of_active {α : Type} (body : Act σ α) (active : s.editor.active = true) :
    (suspended body).result s = ((body.result (s.onEditor (·.emit .clear))).1,
      (body.result (s.onEditor (·.emit .clear))).2.restored s.editor.line) := by
  have blanked : s.onEditor (·.blank) = s.onEditor (·.emit .clear) := by
    simp [onEditor, Editor.blank, active]
  simp only [suspended, result_get_bind, active, if_true, result_modify_bind, result_ensuring,
    blanked]
  rfl

theorem result_suspended_of_not_active {α : Type} (body : Act σ α)
    (inactive : s.editor.active = false) : (suspended body).result s = body.result s := by
  simp [suspended, inactive]

/-- Output that is not part of the edit line is a part with the line blanked that only writes. -/
theorem result_suspended_write (s : Session σ) (text : String) :
    (suspended (editing (·.write text))).result s = (.ok .nothing, s.printText text) := by
  cases active : s.editor.active with
  | true =>
      rw [result_suspended_of_active _ active]
      simp only [printText, onEditor, Editor.print_of_active active]
      rfl
  | false =>
      rw [result_suspended_of_not_active _ active]
      simp only [printText, onEditor, Editor.print_of_not_active active]
      rfl

/-- A part with the edit line blanked puts the line back, whatever it does and however it ends. -/
theorem suspensionLaw (depth : Nat) (body : Program σ) (s : Session σ) :
    SuspensionLaw depth body s where
  restored active := result_suspended_of_active _ active
  between active commands := by
    obtain ⟨added, written⟩ := @writes_of_run _ (s.onEditor (·.emit .clear)) depth body
      commands
    rw [result_suspended_of_active _ active]
    exact ⟨added, _, _, _, congrArg _ written⟩
  straight inactive := result_suspended_of_not_active _ inactive
  goesOn next := by
    rw [Program.run, result_bind]
    rcases (suspended (body.run (Program.exec depth))).result s with ⟨_ | _, t⟩ <;> rfl

def typingShell : Session Unit :=
  (bareShell [] ()).beginRun.onEditor fun e => { e with line := .ofParts ['a', 'b'] ['c'] }

/-- A part that hands the line on, blanks the next one, leaves a row unfinished, removes the editor
and is given up. -/
def roughBody : Program Unit :=
  .perform (.feed "\r") fun _ => .suspended (.single (.insertText "lost"))
    (.perform (.write "half a row") fun _ => .perform .remove fun _ =>
      .fail (.failure (.raised .runtime "rough")))

theorem suspended_roughBody : typingShell.editor.active = true ∧
    ∃ t, (suspended (roughBody.run (Program.exec 1))).result typingShell =
        (.error (.failure (.raised .runtime "rough")), t) ∧
      t.editor.line = .ofParts ['a', 'b'] ['c'] ∧ t.editor.midRow = false ∧
      t.editor.installed = false ∧
      t.editor.writes.head? = some 
        (.redraw true "[cmdshell]# " (.ofParts ['a', 'b'] ['c']) .removed) := by
  have active : typingShell.editor.active = true := rfl
  have law := (suspensionLaw 1 roughBody typingShell).restored active
  have ended : (match ((roughBody.run (Program.exec 1)).result
        (typingShell.onEditor (·.emit .clear))).1 with
      | .error i => some i
      | .ok _ => none) = some (.failure (.raised .runtime "rough")) ∧
    ((roughBody.run (Program.exec 1)).result
      (typingShell.onEditor (·.emit .clear))).2.editor.installed = false ∧
    ((roughBody.run (Program.exec 1)).result
      (typingShell.onEditor (·.emit .clear))).2.editor.midRow = true ∧
    ((roughBody.run (Program.exec 1)).result
      (typingShell.onEditor (·.emit .clear))).2.editor.visiblePrompt = "[cmdshell]# " := by
    decide +kernel
  rcases run : (roughBody.run (Program.exec 1)).result (typingShell.onEditor (·.emit .clear)) with
    ⟨r, t⟩
  rw [run] at law ended
  obtain ⟨raised, removed, unfinished, shown⟩ := ended
  refine ⟨active, t.restored typingShell.editor.line, ?_, rfl, rfl, removed, ?_⟩
  · rw [law]
    rcases r with i | _
    · cases raised
      rfl
    · cases raised
  · change t.editor.installed = false at removed
    have phase : t.editor.phase = .removed := by simp [Editor.phase, removed]
    rw [← unfinished, ← shown, ← phase]
    rfl

end LineShell
