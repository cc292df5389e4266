import LineShell.Proofs.Editor
import LineShell.Proofs.Runs

/-!
# The screen shows the edit state

Whenever a line is being edited, the last thing written is a drawing of the visible prompt and of
that line. Programs keep this with every change they make, a key with each of its changes as a
whole; only where the handling of a completed line is given up the drawing behind it is missing.
-/

namespace LineShell

open Act Edit Edit.Editor Session

variable {σ : Type}

namespace Edit.Editor

/-- If a line is being edited, the last write draws it behind the visible prompt. -/
def Shown (e : Editor) : Prop :=
  e.active = true → ∃ fresh phase older,
    e.writes = .redraw fresh e.visiblePrompt e.line phase :: older

theorem shown_redisplay (e : Editor) : e.redisplay.Shown := fun _ => ⟨e.midRow, e.phase, e.writes, rfl⟩

theorem shown_of_removed {e : Editor} (h : e.installed = false) : e.Shown := by
  intro ha
  simp [active, h] at ha

theorem shown_of_handling {e : Editor} (h : e.handling = true) : e.Shown := by
  intro ha
  simp [active, h] at ha

theorem shown_redisplayIfInstalled (e : Editor) : e.redisplayIfInstalled.Shown := by
  unfold redisplayIfInstalled
  split
  · exact e.shown_redisplay
  · rename_i h
    exact shown_of_removed (by simpa using h)

theorem Shown.congr {e e' : Editor} (h : e.Shown) (ha : e'.active = e.active)
    (hp : e'.visiblePrompt = e.visiblePrompt) (hl : e'.line = e.line)
    (hw : e'.writes = e.writes) : e'.Shown := by
  intro hactive
  rw [hp, hl, hw]
  exact h (ha ▸ hactive)

theorem shown_print (e : Editor) (text : String) : (e.print text).Shown := by
  cases ha : e.active with
  | true =>
      rw [print_of_active ha]
      exact shown_redisplay _
  | false =>
      rw [print_of_not_active ha]
      intro hw
      rw [active_write, ha] at hw
      cases hw

/-- A walk through the history that goes astray changes nothing that is shown. -/
theorem Shown.recallOlder {e : Editor} (h : e.Shown) (missing : e.recallOlder.2 = true) :
    e.recallOlder.1.Shown := by
  obtain ⟨line, draft, recalled, he, hl⟩ := e.recallOlder_frame
  rw [he, hl missing]
  exact h.congr rfl rfl rfl rfl

end Edit.Editor

/-! ### Programs and keys -/

/-- Programs may use all common operations but start the shell anew; callbacks of requests do not
give up, while other programs may. -/
def shownRules : Rules where
  uses op := op.IsOngoing
  blanks := False
  callbacksGiveUp := false

theorem shown_change {s : Session σ} {f : Session σ → Session σ} (h : s.editor.Shown)
    (c : Change shownRules s f) : (f s).editor.Shown := by
  cases c with
  | print text => exact shown_print _ text
  | ask idle called => exact shown_redisplayIfInstalled _
  | answer waiting => exact shown_redisplayIfInstalled _
  | remember history store file => exact h.congr rfl rfl rfl rfl
  | retire => exact shown_of_removed rfl
  | prompt text =>
      simp only [Session.setPrompt]
      split
      · exact shown_redisplayIfInstalled _
      · exact h
  | interrupt attached => exact shown_redisplay _
  | terminate => exact shown_of_removed rfl
  | printLine starts | adopt starts | store starts | load starts | begin starts =>
      exact starts.elim
  | install installs => exact installs.elim
  | _ => exact h

theorem closed_shown : Closed (σ := σ) shownRules (Invariant shownRules fun s => s.editor.Shown) :=
  Closed.ofInvariant (fun _ h => h.isCommon) id shown_change

/-- Interrupts that cut off the handling of a completed line: the history is kept at a path that
cannot name a file, programs were nested too deep, or one of them ends the whole program. -/
def Interrupt.CutsOff (i : Interrupt) : Prop :=
  i = .failure (.file .nul) ∨ i = .failure .tooDeep ∨ ∃ code, i = .exit code

theorem keys_shown : KeysPreserve (σ := σ) shownRules (fun s => s.editor.Shown)
    (fun s => s.editor.Shown) (fun i s => s.editor.Shown ∨ i.CutsOff) where
  change := by
    intro s f h c
    cases c with
    | edit f | newer | older found | list rows | draw => exact shown_redisplay _
    | astray missing => exact h.recallOlder missing
    | hook | attempt => exact h
    | afterReturn | decode => exact h.congr rfl rfl rfl rfl
  failed := fun h => .inl h
  begin := fun _ _ => shown_of_handling rfl
  leave := fun _ => shown_redisplayIfInstalled _
  givenUp := by
    rintro i s - ((hb | hd | hx) | ⟨hn, -⟩)
    · cases hb
    · exact .inr (.inr (.inl hd))
    · exact .inr (.inr (.inr hx))
    · exact .inr (.inl hn)
  endInput := fun _ => shown_of_removed rfl
  drop := fun _ removed => shown_of_removed removed
  broken := Or.imp_left (·.congr rfl rfl rfl rfl)

theorem Edit.History.add_of_hasNul {h : History} {path : Path} (file : h.file = some path)
    (nul : path.hasNul = true) {line : String} (accepted : h.accepts line = true)
    (store : Files.Store) (time : String) :
    h.add store time line = (true, h.remember line, store, some .nul) := by
  simp [History.add, accepted, file, Files.Store.append, nul]

theorem result_remember_of_blocked {s : Session σ} (blocked : s.HistoryBlocked) {line : String}
    (accepted : s.editor.history.accepts line = true) :
    (remember line).result s = (.error (.failure (.file .nul)),
      s.onEditor fun e => { e with history := e.history.remember line }) := by
  obtain ⟨path, file, nul⟩ := blocked
  have added := s.editor.history.add_of_hasNul file nul accepted s.host.store s.host.entryTime
  simp only [remember, result_get_bind, added, result_modify_bind]
  rfl

/-- A completed line that is to enter such a history is cut off behind the end of its row. -/
theorem result_acceptLine_of_blocked {s : Session σ} {call : Program σ → Act σ Reply}
    (consumer : s.consumer = .commands) (request : s.request = none) (blocked : s.HistoryBlocked)
    (accepted : s.editor.history.accepts s.editor.line.toString = true) :
    ∃ t, (acceptLine call).result s = (.error (.failure (.file .nul)), t) ∧
      t.editor.installed = s.editor.installed ∧ t.editor.handling = false ∧
      textOf t.editor.writes = textOf s.editor.writes ++ "\n" := by
  have nonempty : s.editor.line.toString ≠ "" := by
    have both := accepted
    simp only [History.accepts, Bool.and_eq_true, decide_eq_true_eq] at both
    exact both.1
  have begun : s.beginLine = s.onEditor fun e =>
      { e.newRow with line := {}, recalled := none, handling := true } := by
    have ended : s.editor.endRow = s.editor.newRow := by
      have some : s.editor.line.text ≠ [] := fun h => nonempty (by simp [Line.toString, h])
      simp [endRow, some]
    simp only [Session.beginLine, onEditor, ended]
  let kept := s.beginLine.onEditor fun e =>
    { e with history := e.history.remember s.editor.line.toString }
  have history : s.beginLine.editor.history = s.editor.history := by rw [begun]; rfl
  have refused : (remember s.editor.line.toString).result s.beginLine =
      (.error (.failure (.file .nul)), kept) := by
    refine result_remember_of_blocked ?_ (by rwa [history])
    rwa [HistoryBlocked, history]
  have unanswered : (release call s.editor.line.toString).result s.beginLine =
      (.ok false, s.beginLine) := by
    have idle : s.beginLine.request = none := request
    simp only [release, result_get_bind, idle]
    rfl
  have consumed : (consume call (some s.editor.line.toString)).result s.beginLine =
      (.error (.failure (.file .nul)), kept) := by
    have commands : s.beginLine.consumer = .commands := consumer
    simp only [consume, result_get_bind, commands, completeLine, if_neg nonempty, runLine]
    rw [result_bind, unanswered]
    simp only [Bool.false_eq_true, if_false]
    rw [result_bind, refused]
  refine ⟨kept.leaveLine, ?_, ?_, rfl, ?_⟩
  · rw [result_acceptLine, consumed]
  · simp only [kept, begun]
    rfl
  · simp only [kept, begun]
    exact textOf_cons ..

/-- Whenever a line is being edited, the output ends with the drawing of the visible prompt and the
line, the cursor at the point. This holds in every state that a run of an installed shell reaches,
unless feeding was given up because the handling of a completed line was cut off. Handlers,
generators and hooks may give up anywhere, so a moment inside one of them is the end of a run in
which it does. Where the history is kept at a path that cannot name a file, a line that enters it is
cut off, and nothing is drawn behind the end of its row. -/
theorem textOf_writes_of_reached {depth : Nat} {s₀ s : Session σ} (follows : s₀.Follows shownRules)
    (reached : Reached shownRules depth (fun i _ => ¬ i.CutsOff) s₀.beginRun s)
    (active : s.editor.active = true) :
    (∃ before, textOf s.editor.writes =
      before ++ (clearRow ++ drawn s.editor.visiblePrompt s.editor.line)) ∧
    (s.HistoryBlocked → s.request = none →
      s.editor.history.accepts s.editor.line.toString = true →
        ∃ t, (acceptLine (Program.exec depth)).result s = (.error (.failure (.file .nul)), t) ∧
          t.editor.active = true ∧ textOf t.editor.writes = textOf s.editor.writes ++ "\n") := by
  obtain ⟨shown, kept⟩ := reached.invariant keys_shown closed_shown closed_shown
    (fun i t hf ht => hf.resolve_right ht) (shown_redisplay _)
    (follows.congr rfl rfl rfl rfl)
  constructor
  · obtain ⟨fresh, _, older, hw⟩ := shown active
    refine ⟨textOf older ++ (if fresh then "\n" else ""), ?_⟩
    rw [hw, textOf_cons, Write.text, String.append_assoc, String.append_assoc]
  · intro blocked request accepted
    obtain ⟨t, ht, installed, handling, written⟩ :=
      result_acceptLine_of_blocked kept.consumer request blocked accepted
    exact ⟨t, ht, active_eq.2 ⟨installed.trans (active_eq.1 active).1, handling⟩, written⟩

def askingShell : Session Unit :=
  bareShell [{
    name := "ask"
    handler := fun _ => .request "box" "Code:" none (.text "") .skip }] ()

theorem follows_askingShell : askingShell.Follows shownRules := by
  refine follows_bareShell (fun _ _ => trivial) trivial trivial fun e he => ?_
  obtain rfl := List.mem_singleton.1 he
  exact ⟨fun _ => .request (fun _ hf => (nomatch hf)) (.done .nothing), fun _ hg => (nomatch hg),
    fun _ hf => (nomatch hf)⟩

/-- The code is being typed, the point before its last character. -/
def answering : Except Interrupt Unit × Session Unit :=
  (feed (Program.exec 3) "ask\rab\x02".toList).result askingShell.beginRun

/-- The message of the request is shown in place of the prompt, and the answer behind it. -/
theorem textOf_writes_answering : ∃ before, textOf answering.2.editor.writes =
    before ++ (clearRow ++ drawn "[box] Code: " (.moveTo (.ofText ['a', 'b']) 1)) := by
  have run : answering.1.isOk = true ∧
      answering.2.editor.active = true ∧ answering.2.editor.visiblePrompt = "[box] Code: " ∧
      answering.2.editor.line = .moveTo (.ofText ['a', 'b']) 1 := by
    decide +kernel
  obtain ⟨ok, active, prompt, line⟩ := run
  have reached : Reached shownRules 3 (fun i _ => ¬ i.CutsOff) askingShell.beginRun answering.2 :=
    .fed .start _ ok
  have shown := (textOf_writes_of_reached follows_askingShell reached active).1
  rwa [prompt, line] at shown

end LineShell
