import LineShell.Proofs.Editor
import LineShell.Proofs.Runs
import LineShell.Proofs.Terminal

/-!
# Where printed text begins

While a line is being edited, printed text begins on an emptied row. While a completed line is
handled it goes straight through; should the prompt have been drawn in the meantime, it begins
behind the prompt, though never on a row with characters of an edit line.
-/

namespace LineShell

open Act Edit Edit.Editor Session

variable {σ : Type}

/-! ### Rows that the prompt was drawn on -/

namespace Terminal

/-- The row holds printed text only, at whose end the cursor stands. -/
def IsClean (t : Terminal) : Prop :=
  (∀ c ∈ t.row, c.printed = true) ∧ t.column = t.row.length

end Terminal

namespace Edit

/-- The prompt stands on the row. It was drawn before an empty line while a completed line was being
handled, and there has only been output since, none of which began a new row. -/
def Redrawn (prompt : String) (writes : List Write) : Prop :=
  ∃ outputs fresh older, writes = outputs ++ .redraw fresh prompt {} .handling :: older ∧
    ∀ w ∈ outputs, ∃ text phase, w = .output text phase ∧ '\n' ∉ text.toList

/-- What was drawn on the row, if there has only been output since, none of which began a new row:
a prompt and a line, and what the editor was about. -/
def drawnRow : List Write → Option (String × Line × Phase)
  | .output text _ :: older => if '\n' ∈ text.toList then none else drawnRow older
  | .redraw _ prompt line phase :: _ => some (prompt, line, phase)
  | _ => none

theorem redrawn_iff {prompt : String} {writes : List Write} :
    Redrawn prompt writes ↔ drawnRow writes = some (prompt, {}, .handling) := by
  constructor
  · rintro ⟨outputs, fresh, older, rfl, same⟩
    induction outputs with
    | nil => rfl
    | cons w outputs ih =>
        obtain ⟨⟨text, phase, rfl, unbroken⟩, behind⟩ := List.forall_mem_cons.1 same
        simpa [drawnRow, unbroken] using ih behind
  · intro h
    induction writes with
    | nil => cases h
    | cons w older ih =>
        cases w with
        | output text phase =>
            by_cases hn : '\n' ∈ text.toList
            · simp [drawnRow, hn] at h
            · obtain ⟨outputs, fresh, before, rfl, same⟩ := ih (by simpa [drawnRow, hn] using h)
              exact ⟨.output text phase :: outputs, fresh, before, rfl,
                List.forall_mem_cons.2 ⟨⟨text, phase, rfl, hn⟩, same⟩⟩
        | redraw fresh prompt line phase =>
            cases h
            exact ⟨[], fresh, older, rfl, List.forall_mem_nil _⟩
        | _ => cases h

theorem isClean_foldl_put {t : Terminal} {s : List Char} (h : t.IsClean ∨ '\n' ∈ s) :
    (s.foldl (Terminal.put true) t).IsClean := by
  induction s generalizing t with
  | nil => exact h.resolve_right (by simp)
  | cons c s ih =>
      refine ih ?_
      by_cases hc : c = '\n'
      · refine .inl ?_
        simp [Terminal.put, hc, Terminal.newRow, Terminal.IsClean]
      · refine h.imp (fun h => ?_) fun h => (List.mem_cons.1 h).resolve_left (Ne.symm hc)
        rw [Terminal.put, if_neg hc, Terminal.place_of_end h.2]
        refine ⟨fun d hd => ?_, by simp [h.2]⟩
        rcases List.mem_append.1 hd with hd | hd
        · exact h.1 d hd
        · rw [List.mem_singleton.1 hd]

/-- Text that is printed on a row without a drawing begins behind printed text or at the start of
the row. -/
theorem isClean_screen {writes : List Write} (plain : ∀ w ∈ writes, w.IsPlain)
    (h : drawnRow writes = none) : (screen writes).IsClean := by
  induction writes with
  | nil => exact ⟨fun _ hc => (nomatch hc), rfl⟩
  | cons w older ih =>
      have plainOlder : ∀ v ∈ older, v.IsPlain := fun v hv => plain v (List.mem_cons_of_mem _ hv)
      have plainW := plain w (List.mem_cons_self ..)
      have hm := mode_screen plainOlder
      rw [screen_cons]
      cases w with
      | output text phase =>
          rw [Terminal.read_output hm plainW]
          refine isClean_foldl_put ?_
          by_cases hn : '\n' ∈ text.toList
          · exact .inr (feed_mem_visible plainW hn)
          · exact .inl (ih plainOlder (by simpa [drawnRow, hn] using h))
      | clear =>
          rw [Terminal.read_clear hm]
          exact ⟨fun _ hc => (nomatch hc), rfl⟩
      | newRow =>
          rw [Terminal.read_newRow hm]
          exact ⟨fun _ hc => (nomatch hc), rfl⟩
      | redraw fresh prompt line phase => cases h
      | listing rows =>
          obtain ⟨s, hs, last⟩ := Terminal.read_listing hm plainW
          obtain ⟨hr, hc⟩ := Terminal.foldl_put_of_getLast? false last (screen older)
          rw [hs]
          exact ⟨by simp [hr], by simp [hr, hc]⟩

/-- On a row with a drawing of an empty line, what is printed stands behind the prompt. -/
theorem row_screen {writes : List Write} (plain : ∀ w ∈ writes, w.IsPlain) {prompt : String}
    {phase : Phase} (h : drawnRow writes = some (prompt, {}, phase)) :
    ∃ s, (screen writes).row = cellsOf false (visible .text prompt.toList) ++ cellsOf true s ∧
      (screen writes).column = (screen writes).row.length := by
  induction writes with
  | nil => cases h
  | cons w older ih =>
      have plainOlder : ∀ v ∈ older, v.IsPlain := fun v hv => plain v (List.mem_cons_of_mem _ hv)
      have plainW := plain w (List.mem_cons_self ..)
      have hm := mode_screen plainOlder
      rw [screen_cons]
      cases w with
      | output text phase =>
          by_cases hn : '\n' ∈ text.toList
          · simp [drawnRow, hn] at h
          · obtain ⟨s, hr, hc⟩ := ih plainOlder (by simpa [drawnRow, hn] using h)
            rw [Terminal.read_output hm plainW,
              Terminal.foldl_put_of_not_mem true (fun h => hn (mem_of_mem_visible h)) _ hc]
            exact ⟨s ++ visible .text text.toList, by simp [hr, cellsOf], by simp [hc, cellsOf]⟩
      | redraw fresh prompt line phase =>
          cases h
          obtain ⟨column, hc, hd⟩ := Terminal.read_redraw hm plainW
          refine ⟨[], ?_, ?_⟩
          · simp [hd, cellsOf, visible]
          · simp [hd, hc rfl, cellsOf]
      | _ => cases h

/-- Where text is written: while a line is being edited, on a row that has just been emptied; while
a completed line is being handled, on no row with a drawing but one of an empty line that was made
meanwhile. -/
structure IsPlaced (older : List Write) (phase : Phase) : Prop where
  editing : phase = .editing → older.head? = some .clear
  handling : phase = .handling → ∀ prompt line drawn, drawnRow older = some (prompt, line, drawn) →
    line = {} ∧ drawn = .handling

/-- All text has been placed so since some writes. -/
inductive Tidy (base : List Write) : List Write → Prop
  | start : Tidy base base
  | write {w : Write} {older : List Write} (before : Tidy base older)
      (placed : ∀ text phase, w = .output text phase → IsPlaced older phase) : Tidy base (w :: older)

theorem Tidy.isPlaced {base writes : List Write} (h : Tidy base writes) {later since : List Write}
    {text : String} {phase : Phase} (hw : writes = later ++ .output text phase :: (since ++ base)) :
    IsPlaced (since ++ base) phase := by
  induction h generalizing later with
  | start =>
      have hl := congrArg List.length hw
      simp only [List.length_append, List.length_cons] at hl
      omega
  | write _ placed ih =>
      cases later with
      | nil =>
          obtain ⟨rfl, rfl⟩ := List.cons.inj hw
          exact placed text phase rfl
      | cons v later => exact ih (List.cons.inj hw).2

end Edit

/-! ### Programs and keys -/

namespace Edit.Editor

/-- While a completed line is handled the edit line is empty, also where it was drawn last. -/
structure PlacesBusy (base : List Write) (e : Editor) : Prop where
  handling : e.handling = true
  tidy : Tidy base e.writes
  line : e.installed = true → e.line = {}
  row : e.installed = true → ∀ prompt line drawn,
    drawnRow e.writes = some (prompt, line, drawn) → line = {} ∧ drawn = .handling

variable {base : List Write} {e : Editor}

/-- Anything but output may be written at any time. -/
theorem tidy_emit (h : Tidy base e.writes) {w : Write} (hw : ∀ text phase, w ≠ .output text phase) :
    Tidy base (e.emit w).writes :=
  .write h fun text phase ht => absurd ht (hw text phase)

theorem tidy_redisplay (h : Tidy base e.writes) : Tidy base e.redisplay.writes :=
  tidy_emit h fun _ _ ht => nomatch ht

theorem tidy_redisplayIfInstalled (h : Tidy base e.writes) :
    Tidy base e.redisplayIfInstalled.writes := by
  unfold Editor.redisplayIfInstalled
  split
  · exact tidy_redisplay h
  · exact h

theorem tidy_newRow (h : Tidy base e.writes) : Tidy base e.newRow.writes :=
  tidy_emit h fun _ _ ht => nomatch ht

theorem tidy_write (h : Tidy base e.writes) (placed : IsPlaced e.writes e.phase) (text : String) :
    Tidy base (e.write text).writes := by
  by_cases ht : text = ""
  · rw [ht, write_empty]
    exact h
  · rw [write_of_ne ht]
    refine .write h fun _ _ hw => ?_
    cases hw
    exact placed

/-- While no completed line is handled, text is printed on an emptied row. -/
theorem tidy_print (h : Tidy base e.writes) (hh : e.handling = false) (text : String) :
    Tidy base (e.print text).writes := by
  cases active : e.active with
  | true =>
      rw [print_of_active active]
      have cleared : Tidy base (e.emit .clear).writes := tidy_emit h fun _ _ ht => nomatch ht
      have placed : IsPlaced (e.emit .clear).writes (e.emit .clear).phase :=
        ⟨fun _ => rfl, fun _ _ _ _ hd => nomatch hd⟩
      exact tidy_emit (tidy_write cleared placed text) fun _ _ ht => nomatch ht
  | false =>
      rw [print_of_not_active active]
      refine tidy_write h ⟨fun hp => ?_, fun hp => ?_⟩ text
      · exact nomatch active.symm.trans (phase_eq_editing.1 hp)
      · exact nomatch hh.symm.trans (phase_eq_handling.1 hp).2

theorem PlacesBusy.redisplay (h : e.PlacesBusy base) : e.redisplay.PlacesBusy base := by
  refine ⟨h.handling, tidy_redisplay h.tidy, h.line, fun hi prompt line drawn hd => ?_⟩
  cases hd
  exact ⟨h.line hi, phase_eq_handling.2 ⟨hi, h.handling⟩⟩

theorem PlacesBusy.redisplayIfInstalled (h : e.PlacesBusy base) :
    e.redisplayIfInstalled.PlacesBusy base := by
  unfold Editor.redisplayIfInstalled
  split
  · exact h.redisplay
  · exact h

theorem PlacesBusy.print (h : e.PlacesBusy base) (text : String) :
    (e.print text).PlacesBusy base := by
  have inactive : e.active = false := by simp [active, h.handling]
  rw [print_of_not_active inactive]
  have placed : IsPlaced e.writes e.phase :=
    ⟨fun hp => absurd (inactive.symm.trans (phase_eq_editing.1 hp)) Bool.false_ne_true,
      fun hp => h.row (phase_eq_handling.1 hp).1⟩
  refine ⟨(handling_write e text).trans h.handling, tidy_write h.tidy placed text, fun hi => ?_,
    fun hi prompt line drawn hd => ?_⟩
  · rw [line_write]
    exact h.line (installed_write e text ▸ hi)
  · have hrow := h.row (installed_write e text ▸ hi) prompt line drawn
    by_cases ht : text = ""
    · rw [ht, write_empty] at hd
      exact hrow hd
    · rw [write_of_ne ht] at hd
      by_cases hn : '\n' ∈ text.toList
      · simp [drawnRow, emit, hn] at hd
      · exact hrow (by simpa [drawnRow, emit, hn] using hd)

end Edit.Editor

/-- Programs may use all common operations that do not begin a run, and may give up. -/
def ongoingRules : Rules where
  uses op := op.IsOngoing
  blanks := False
  callbacksGiveUp := true

/-- Between keys no completed line is being handled. -/
def PlacesIdle (base : List Write) (s : Session σ) : Prop :=
  Tidy base s.editor.writes ∧ s.editor.handling = false

variable {base : List Write} {s : Session σ} {f : Session σ → Session σ}

theorem placesIdle_change (h : PlacesIdle base s) (c : Change ongoingRules s f) :
    PlacesIdle base (f s) := by
  obtain ⟨h, hh⟩ := h
  cases c with
  | print text => exact ⟨tidy_print h hh text, (handling_print ..).trans hh⟩
  | ask idle called =>
      exact ⟨tidy_redisplayIfInstalled h, (handling_redisplayIfInstalled _).trans hh⟩
  | answer waiting =>
      exact ⟨tidy_redisplayIfInstalled h, (handling_redisplayIfInstalled _).trans hh⟩
  | prompt text =>
      simp only [Session.setPrompt]
      split
      · exact ⟨tidy_redisplayIfInstalled h, (handling_redisplayIfInstalled _).trans hh⟩
      · exact ⟨h, hh⟩
  | interrupt attached =>
      exact ⟨tidy_redisplay (tidy_newRow (e := s.editor.replaceLine []) h), hh⟩
  | terminate => exact ⟨tidy_newRow (e := s.editor.replaceLine []) h, hh⟩
  | printLine starts | adopt starts | store starts | load starts | begin starts =>
      exact starts.elim
  | install installs => exact installs.elim
  | _ => exact ⟨h, hh⟩

theorem placesBusy_change (h : s.editor.PlacesBusy base) (c : Change ongoingRules s f) :
    (f s).editor.PlacesBusy base := by
  have same : ∀ {e : Editor}, e.handling = s.editor.handling → e.writes = s.editor.writes →
      e.installed = s.editor.installed → e.line = s.editor.line → e.PlacesBusy base := by
    intro e hh hw hi hl
    refine ⟨hh.trans h.handling, hw ▸ h.tidy, fun hi' => hl.trans (h.line (hi ▸ hi')), ?_⟩
    intro hi' prompt line drawn hd
    exact h.row (hi ▸ hi') prompt line drawn (hw ▸ hd)
  cases c with
  | print text => exact h.print text
  | ask idle called =>
      refine PlacesBusy.redisplayIfInstalled ?_
      exact same rfl rfl rfl rfl
  | answer waiting =>
      refine PlacesBusy.redisplayIfInstalled ?_
      exact same rfl rfl rfl rfl
  | retire =>
      exact ⟨h.handling, h.tidy, fun hi => absurd hi Bool.false_ne_true,
        fun hi => absurd hi Bool.false_ne_true⟩
  | prompt text =>
      simp only [Session.setPrompt]
      split
      · refine PlacesBusy.redisplayIfInstalled ?_
        exact same rfl rfl rfl rfl
      · exact h
  | interrupt attached =>
      refine PlacesBusy.redisplay ⟨h.handling, ?_, fun _ => rfl, fun _ _ _ _ hd =>
        absurd hd.symm (Option.some_ne_none _)⟩
      exact tidy_newRow (e := s.editor.replaceLine []) h.tidy
  | terminate =>
      have left := tidy_newRow (e := s.editor.replaceLine []) h.tidy
      exact ⟨h.handling, left, fun hi => absurd hi Bool.false_ne_true,
        fun hi => absurd hi Bool.false_ne_true⟩
  | printLine starts | adopt starts | store starts | load starts | begin starts =>
      exact starts.elim
  | install installs => exact installs.elim
  | _ => exact same rfl rfl rfl rfl

theorem placesIdle_key {rules : Rules} (h : PlacesIdle base s) (c : KeyChange rules s f) :
    PlacesIdle base (f s) := by
  obtain ⟨h, hh⟩ := h
  cases c with
  | edit f => exact ⟨tidy_emit h fun _ _ ht => (nomatch ht), hh⟩
  | newer =>
      obtain ⟨line, recalled, he⟩ := s.editor.recallNewer_frame
      have same : s.editor.recallNewer.writes = s.editor.writes := congrArg (·.writes) he
      exact ⟨tidy_redisplay (same ▸ h), (congrArg handling he).trans hh⟩
  | older found =>
      obtain ⟨line, draft, recalled, he, -⟩ := s.editor.recallOlder_frame
      have same : s.editor.recallOlder.1.writes = s.editor.writes := congrArg (·.writes) he
      exact ⟨tidy_redisplay (same ▸ h), (congrArg handling he).trans hh⟩
  | astray missing =>
      obtain ⟨line, draft, recalled, he, -⟩ := s.editor.recallOlder_frame
      have same : s.editor.recallOlder.1.writes = s.editor.writes := congrArg (·.writes) he
      exact ⟨same ▸ h, (congrArg handling he).trans hh⟩
  | list rows =>
      exact ⟨tidy_redisplay (tidy_emit h fun _ _ ht => (nomatch ht)), hh⟩
  | draw => exact ⟨tidy_redisplay h, hh⟩
  | _ => exact ⟨h, hh⟩

theorem keys_places : KeysPreserve (σ := σ) ongoingRules (PlacesIdle base)
    (fun s => s.editor.PlacesBusy base) (fun _ => PlacesIdle base) where
  change := placesIdle_key
  failed := id
  begin := by
    rintro s ⟨h, -⟩ -
    have ended : Tidy base s.editor.endRow.writes := by
      unfold Editor.endRow
      split
      · exact tidy_emit h fun _ _ ht => nomatch ht
      · exact tidy_newRow h
    have row : drawnRow s.editor.endRow.writes = none := by
      unfold Editor.endRow
      split <;> rfl
    exact ⟨rfl, ended, fun _ => rfl, fun _ _ _ _ hd => nomatch row.symm.trans hd⟩
  leave := fun h => ⟨tidy_redisplayIfInstalled h.tidy, handling_redisplayIfInstalled _⟩
  givenUp := fun h _ => ⟨h.tidy, rfl⟩
  endInput := fun h =>
    ⟨rfl, tidy_newRow (tidy_redisplay h.1), fun hi => (nomatch hi), fun hi => (nomatch hi)⟩
  drop := fun h _ => ⟨h.tidy, rfl⟩
  broken := id

theorem closed_placesIdle :
    Closed (σ := σ) ongoingRules (Invariant ongoingRules (PlacesIdle base)) :=
  Closed.ofInvariant (fun _ h => h.isCommon) id placesIdle_change

theorem closed_placesBusy :
    Closed (σ := σ) ongoingRules (Invariant ongoingRules fun s => s.editor.PlacesBusy base) :=
  Closed.ofInvariant (fun _ h => h.isCommon) id placesBusy_change

/-- What the row is like on which a text is printed, as the editor is about something. -/
structure PlacementLaw (older : List Write) (phase : Phase) : Prop where
  /-- While a line is being edited, the row has been emptied. -/
  emptied : phase = .editing → (screen older).row = [] ∧ (screen older).column = 0
  /-- While a completed line is being handled, the text begins behind printed text or at the start
  of the row, exactly if no prompt that can be seen was drawn on the row meanwhile; -/
  clean : phase = .handling → ((screen older).IsClean ↔
    ∀ prompt, Redrawn prompt older → visible .text prompt.toList = [])
  /-- otherwise it begins behind that prompt, at the end of the row. -/
  behind : phase = .handling → ∀ prompt, Redrawn prompt older → ∃ s,
    (screen older).row = cellsOf false (visible .text prompt.toList) ++ cellsOf true s ∧
      (screen older).column = (screen older).row.length

theorem Edit.IsPlaced.isClean_iff {older : List Write} {phase : Phase}
    (placed : IsPlaced older phase) (plain : ∀ w ∈ older, w.IsPlain) (handling : phase = .handling) :
    (screen older).IsClean ↔ ∀ prompt, Redrawn prompt older → visible .text prompt.toList = [] := by
  cases hd : drawnRow older with
  | none =>
      refine iff_of_true (isClean_screen plain hd) fun prompt redrawn => ?_
      cases hd.symm.trans (redrawn_iff.1 redrawn)
  | some drawing =>
      obtain ⟨prompt, line, drawn⟩ := drawing
      obtain ⟨rfl, rfl⟩ := placed.handling handling prompt line drawn hd
      obtain ⟨s, hr, hc⟩ := row_screen plain hd
      constructor
      · rintro ⟨printed, -⟩ other redrawn
        cases hd.symm.trans (redrawn_iff.1 redrawn)
        refine List.eq_nil_iff_forall_not_mem.2 fun c hm => ?_
        have cell : ⟨c, false⟩ ∈ (screen older).row := by
          rw [hr]
          exact List.mem_append_left _ (List.mem_map_of_mem hm)
        exact Bool.false_ne_true (printed _ cell)
      · intro unseen
        refine ⟨fun c hm => ?_, hc⟩
        rw [hr, unseen prompt (redrawn_iff.2 hd)] at hm
        obtain ⟨_, -, rfl⟩ := List.mem_map.1 hm
        rfl

theorem Edit.IsPlaced.placementLaw {older : List Write} {phase : Phase}
    (placed : IsPlaced older phase) (plain : ∀ w ∈ older, w.IsPlain) :
    PlacementLaw older phase where
  emptied := by
    intro editing
    obtain ⟨before, rfl⟩ := List.head?_eq_some_iff.1 (placed.editing editing)
    have plainBefore : ∀ w ∈ before, w.IsPlain := fun w hw => plain w (List.mem_cons_of_mem _ hw)
    rw [screen_cons, Terminal.read_clear (mode_screen plainBefore)]
    exact ⟨rfl, rfl⟩
  clean := placed.isClean_iff plain
  behind := fun _ _ redrawn => row_screen plain (redrawn_iff.1 redrawn)

/-- Each text that is printed in a run while keys are accepted is placed so. -/
theorem placementLaw_of_reached {depth : Nat} {s₀ s : Session σ} (follows : s₀.Follows ongoingRules)
    (reached : Reached ongoingRules depth (fun _ _ => True) s₀.beginRun s)
    (plain : ∀ w ∈ s.editor.writes, w.IsPlain) {later since : List Write} {text : String}
    {phase : Phase} (printed : s.editor.writes =
      later ++ .output text phase :: (since ++ s₀.beginRun.editor.writes)) :
    PlacementLaw (since ++ s₀.beginRun.editor.writes) phase := by
  have start : PlacesIdle s₀.beginRun.editor.writes s₀.beginRun := ⟨.start, rfl⟩
  have tidy := (reached.invariant keys_places closed_placesIdle closed_placesBusy
    (fun i t hf _ => hf) start (follows.congr rfl rfl rfl rfl)).1.1
  refine (tidy.isPlaced printed).placementLaw fun w hw => plain w ?_
  rw [printed]
  exact List.mem_append_right _ (List.mem_cons_of_mem _ hw)

/-- A shell with a command that asks for a code and prints when it is given. -/
def confirmingShell : Session Unit :=
  bareShell [{
    name := "a"
    handler := fun _ =>
      .request "box" "Code:" (some fun _ _ => .single (.print "ok\n" [])) (.text "") .skip }] ()

def confirmed : Except Interrupt Unit × Session Unit :=
  (feed (Program.exec 3) ['a', '\r', '1', '\r']).result confirmingShell.beginRun

/-- What is written between the start of the shell and the output of the callback. -/
def confirming : List Write := [
  .redraw false "[cmdshell]# " {} .handling, .newRow,
  .redraw false "[box] Code: " (.ofText ['1']) .editing, .redraw false "[box] Code: " {} .editing,
  .redraw false "[box] Code: " {} .handling, .newRow,
  .redraw false "[cmdshell]# " (.ofText ['a']) .editing]

/-- The end of the request draws the prompt, so that what the callback prints begins behind it. -/
theorem not_isClean_confirming :
    ¬ (screen (confirming ++ confirmingShell.beginRun.editor.writes)).IsClean := by
  have follows : confirmingShell.Follows ongoingRules := by
    refine follows_bareShell (fun _ _ => trivial) trivial trivial fun e he => ?_
    obtain rfl := List.mem_singleton.1 he
    refine ⟨fun _ => .request (fun g hg _ _ => ?_) (.done .nothing), fun _ hg => (nomatch hg),
      fun _ hf => (nomatch hf)⟩
    cases hg
    exact .perform trivial (.inl rfl) fun reply => .done reply
  have run : confirmed.1.isOk = true ∧
      confirmed.2.editor.writes = [.redraw false "[cmdshell]# " {} .editing] ++
        .output "ok\n" .handling :: (confirming ++ confirmingShell.beginRun.editor.writes) ∧
      ∀ w ∈ confirmed.2.editor.writes, w.IsPlain := by
    decide +kernel
  obtain ⟨ok, printed, plain⟩ := run
  have reached : Reached ongoingRules 3 (fun _ _ => True) confirmingShell.beginRun confirmed.2 :=
    .fed .start _ ok
  have redrawn : Redrawn "[cmdshell]# " (confirming ++ confirmingShell.beginRun.editor.writes) :=
    ⟨[], false, _, rfl, fun _ hw => nomatch hw⟩
  have law := placementLaw_of_reached follows reached plain printed
  intro clean
  have hidden := (law.clean rfl).1 clean _ redrawn
  revert hidden
  decide +kernel

end LineShell
