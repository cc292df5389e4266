import LineShell.Proofs.Courses
import LineShell.Proofs.Cuts

/-!
# Silence after the end

Asking a shell to end removes its editor, and only a new session, or code that installs the editor
by itself, brings it back. Until then what is typed has no effect: neither the rest of a text that is
being fed, nor the other keys of a character, nor later texts or readings.
-/

namespace LineShell

open Act Edit Session

variable {σ : Type} {call : Program σ → Act σ Reply} {s t : Session σ} {asked : Prop}

/-! ### Asking a shell to end -/

def onwardRules : Rules where
  uses
    | .install _ | .start _ => False
    | _ => True
  blanks := True
  callbacksGiveUp := true

/-- A shell that has been asked to end accepts no keys; if `asked`, it has been. -/
structure Session.Ending (asked : Prop) (s : Session σ) : Prop where
  removed : s.quitting = true → s.editor.installed = false
  lasting : asked → s.quitting = true

theorem Session.Ending.congr (h : s.Ending asked) (quitting : t.quitting = s.quitting)
    (installed : t.editor.installed = s.editor.installed) : t.Ending asked where
  removed := by
    intro ending
    rw [installed]
    exact h.removed (quitting.symm.trans ending)
  lasting := fun a => quitting.trans (h.lasting a)

theorem Session.Ending.of_quitting (quitting : s.quitting = true)
    (removed : s.editor.installed = false) : s.Ending asked :=
  ⟨fun _ => removed, fun _ => quitting⟩

theorem Session.Ending.of_removed (h : s.Ending asked) (quitting : t.quitting = s.quitting)
    (removed : t.editor.installed = false) : t.Ending asked :=
  ⟨fun _ => removed, fun a => quitting.trans (h.lasting a)⟩

theorem ending_change {f : Session σ → Session σ} (h : s.Ending asked)
    (c : Change onwardRules s f) : (f s).Ending asked := by
  cases c with
  | print text => exact h.congr rfl (s.editor.installed_print text)
  | ask | answer => exact h.congr rfl (Editor.installed_redisplayIfInstalled _)
  | prompt text =>
      simp only [Session.setPrompt]
      split
      · exact h.congr rfl (Editor.installed_redisplayIfInstalled _)
      · exact h
  | retire | terminate => exact .of_quitting rfl rfl
  | printLine starts | adopt starts | store starts | load starts | begin starts =>
      exact starts.elim
  | install installs => exact installs.elim
  | _ => exact h.congr rfl rfl

theorem ending_key {f : Session σ → Session σ} (h : s.Ending asked)
    (c : KeyChange onwardRules s f) : (f s).Ending asked := by
  cases c with
  | newer =>
      obtain ⟨_, _, recalled⟩ := s.editor.recallNewer_frame
      exact h.congr rfl (congrArg (·.installed) recalled)
  | older | astray =>
      obtain ⟨_, _, _, recalled, -⟩ := s.editor.recallOlder_frame
      exact h.congr rfl (congrArg (·.installed) recalled)
  | _ => exact h.congr rfl rfl

theorem keys_ending : KeysPreserve (σ := σ) onwardRules (Ending asked) (Ending asked)
    fun _ => Ending asked where
  change := ending_key
  failed := id
  begin := by
    intro s h _
    refine h.congr rfl ?_
    simp only [beginLine, onEditor, Editor.endRow]
    split <;> rfl
  leave := fun h => h.congr rfl (Editor.installed_redisplayIfInstalled _)
  givenUp := fun h _ => h.congr rfl rfl
  endInput := fun _ => .of_quitting rfl rfl
  drop := fun h _ => h.congr rfl rfl
  broken := fun h => h.congr rfl rfl

theorem unattached_ending : Unattached (σ := σ) (Ending asked) where
  inlet := fun _ _ _ h => h.congr rfl rfl
  handlers := fun h => h.congr rfl rfl
  torn := fun h => h.congr rfl rfl
  left := fun h => h.of_removed rfl rfl
  ended := fun h => h.congr rfl rfl

theorem ending_edit {op : Operation} {f : Editor → Editor} (h : s.Ending asked)
    (edits : op.edits? = some f) : (s.onEditor f).Ending asked := by
  cases op with
  | remove =>
      cases edits
      exact h.of_removed rfl rfl
  | editorPrompt | restorePrompt | message =>
      cases edits
      exact h.congr rfl (Editor.installed_redisplayIfInstalled _)
  | write text =>
      cases edits
      exact h.congr rfl (s.editor.installed_write text)
  | savePrompt | clearMessage | redisplay | newRow | replaceLine | insertText | movePoint =>
      cases edits
      exact h.congr rfl rfl
  | _ => cases edits

theorem closed_ending : Closed onwardRules (Invariant (σ := σ) onwardRules (Ending asked)) := by
  refine unattached_ending.toClosed ending_change keys_ending
    (fun h _ edits => ending_edit h edits) (fun h => h.congr rfl rfl) ?blank
    fun _ h => h.congr rfl rfl
  intro s h
  refine h.congr rfl ?_
  simp only [onEditor, Editor.blank]
  split <;> rfl

theorem ending_of_fed {limit : Nat} {text : List Char} {r : Except Interrupt Unit}
    (h : s.Ending asked) (follows : s.Follows onwardRules)
    (fed : (feed (Program.exec limit) text).result s = (r, t)) : t.Ending asked := by
  have keep : KeysKeep onwardRules (Invariant (σ := σ) onwardRules (Ending asked))
      (Invariant onwardRules (Ending asked)) fun _ => Invariant onwardRules (Ending asked) :=
    keys_ending.keep closed_ending.toStable closed_ending.toStable
  have ends := keep.feed (closed_ending.exec limit) (closed_ending.exec limit) text
    ⟨rfl, h, follows⟩
  rw [fed] at ends
  obtain ⟨-, ⟨i, hi, left⟩ | left⟩ := Invariant.of_ends ends
  · exact left
  · exact left

theorem ending_receiveSignal (h : s.Ending asked) (follows : s.Follows onwardRules)
    (signal : Signal) : (s.receiveSignal signal).Ending asked := by
  have kept : Invariant onwardRules (Ending asked) (s.receiveSignal signal)
      (s.receiveSignal signal) :=
    closed_ending.toStable.receiveSignal (show onwardRules.uses (.signal signal) from trivial)
      ⟨rfl, h, follows⟩
  exact kept.2.1

theorem ending_of_course {depth : Nat} {s₀ : Session σ} {ds : List (Delivery σ)}
    (course : Course onwardRules depth s₀ ds s)
    (begun : s₀.Ending asked) (follows : s₀.Follows onwardRules) :
    s.Ending asked ∧ s.Follows onwardRules :=
  course.invariant (fun _ => closed_ending)
    (fun signal h follows => ending_receiveSignal h follows signal) (fun _ h => h.congr rfl rfl)
    begun follows

/-! ### What a removed editor does with keys -/

theorem result_forM_feedChar_of_removed (removed : s.editor.installed = false)
    (free : s.editor.decoder.stalled = false) (text : List Char) :
    ∃ d, ∀ call, (text.forM (feedChar call)).result s = (.ok ⟨⟩, s.setDecoder d) := by
  induction text generalizing s with
  | nil => exact ⟨s.editor.decoder, fun _ => rfl⟩
  | cons c text ih =>
      obtain ⟨r, d, hd, ok⟩ := result_feedChar_of_removed removed c
      obtain ⟨rfl, free'⟩ := ok free
      obtain ⟨d', hd'⟩ := ih (s := s.setDecoder d) removed free'
      refine ⟨d', fun call => ?_⟩
      rw [result_forM_cons, hd]
      exact hd' call

/-- A removed editor is done with the key that it was handling. -/
def Edit.Editor.Settled (e : Editor) : Prop := e.installed = true ∨ e.decoder.stalled = false

/-- A character that is handled to its end settles the editor. -/
theorem settled_of_feedChar {c : Char} (settled : s.editor.Settled)
    (fed : (feedChar call c).result s = (.ok ⟨⟩, t)) : t.editor.Settled := by
  -- An editor that is there may be removed by the character, but not before its keys are handled,
  -- and behind them the decoder is free again.
  cases installed : s.editor.installed with
  | false =>
      obtain ⟨r, d, hd, ok⟩ := result_feedChar_of_removed installed c
      have free : s.editor.decoder.stalled = false := settled.resolve_left (by simp [installed])
      cases (hd call).symm.trans fed
      exact .inr (ok free).2
  | true =>
      simp only [feedChar, result_get_bind] at fed
      split at fed
      · split at fed
        · cases fed
          exact .inl installed
        · rename_i content _
          obtain ⟨u, hu, kept, -⟩ := result_pressKey_pasted call s content
          rw [result_bind, hu] at fed
          cases fed
          exact .inl (kept.trans installed)
      · split at fed
        · cases fed
        · simp only [result_modify_bind] at fed
          rw [result_handled] at fed
          split at fed
          · cases fed
            exact .inr rfl
          · cases fed

theorem settled_of_forM {text : List Char} (settled : s.editor.Settled)
    (fed : (text.forM (feedChar call)).result s = (.ok ⟨⟩, t)) : t.editor.Settled := by
  induction text generalizing s with
  | nil =>
      cases fed
      exact settled
  | cons c text ih =>
      rw [result_forM_cons] at fed
      rcases hc : (feedChar call c).result s with ⟨_ | _, u⟩
      · rw [hc] at fed
        cases fed
      · rw [hc] at fed
        exact ih (settled_of_feedChar settled hc) fed

/-! ### Texts and keys that are cut off -/

theorem result_forM_append {α : Type} (f : α → Act σ PUnit) (l more : List α) (s : Session σ) :
    ((l ++ more).forM f).result s = (l.forM f >>= fun _ => more.forM f).result s :=
  congrArg (fun m : Act σ PUnit => m.result s) List.forM_append

/-- Behind the character that has removed the editor the rest of a text changes the decoder at
most. -/
theorem result_feed_append_of_removed {text : List Char}
    (fed : (feed call text).result s = (.ok ⟨⟩, t)) (removed : t.editor.installed = false)
    (more : List Char) :
    ∃ d, (feed call (text ++ more)).result s = (.ok ⟨⟩, t.setDecoder d) := by
  simp only [feed, result_get_bind] at fed ⊢
  by_cases installed : s.editor.installed = true
  · simp only [installed, if_true] at fed ⊢
    have free : t.editor.decoder.stalled = false :=
      (settled_of_forM (.inl installed) fed).resolve_left (by simp [removed])
    obtain ⟨d, hd⟩ := result_forM_feedChar_of_removed removed free more
    refine ⟨d, ?_⟩
    rw [result_forM_append, result_bind, fed]
    exact hd call
  · simp only [installed] at fed ⊢
    cases fed
    exact ⟨s.editor.decoder, rfl⟩

theorem result_feed_append_of_error {text : List Char} {i : Interrupt}
    (fed : (feed call text).result s = (.error i, t)) (more : List Char) :
    (feed call (text ++ more)).result s = (.error i, t) := by
  simp only [feed, result_get_bind] at fed ⊢
  split at fed
  · rw [if_pos ‹_›, result_forM_append, result_bind, fed]
  · cases fed

/-- Of the keys of a character those behind the one that has removed the editor count for
nothing. -/
theorem result_forM_deliverKey_append {keys : List Key}
    (delivered : (keys.forM (deliverKey call)).result s = (.ok ⟨⟩, t))
    (removed : t.editor.installed = false) (more : List Key) :
    ∃ d, ((keys ++ more).forM (deliverKey call)).result s = (.ok ⟨⟩, t.setDecoder d) := by
  obtain ⟨d, -, hd⟩ := result_forM_deliverKey_of_removed removed more
  refine ⟨d, ?_⟩
  rw [result_forM_append, result_bind, delivered]
  exact hd call

/-! ### Silence -/

/-- What arrives has no effect but on where the input comes from. -/
structure Session.Silent (s : Session σ) : Prop where
  removed : s.editor.installed = false
  fed : ∀ call text, (feed call text).result s = (.ok ⟨⟩, s)
  read : ∀ source, s.channel.queue ≠ [] →
    (readInput source).result s = (.ok ⟨⟩, s.afterReading source)

theorem result_feed_of_removed (removed : s.editor.installed = false) (text : List Char) :
    (feed call text).result s = (.ok ⟨⟩, s) := by
  simp only [feed, result_get_bind, removed]
  rfl

theorem silent_of_removed (removed : s.editor.installed = false) : s.Silent := by
  refine ⟨removed, fun _ => result_feed_of_removed removed, fun source arrived => ?_⟩
  have bytes : s.channel.read.1.isEmpty = false := by
    cases queued : s.channel.queue with
    | nil => exact absurd queued arrived
    | cons b queue => simp [Input.Channel.read, queued, Input.Channel.readSize]
  have after : (s.afterReading source).editor.installed = false := removed
  simp only [readInput, result_get_bind, result_modify_bind]
  split
  · exact (result_execute_feed _).trans (result_feed_of_removed after _)
  · rfl
  · rename_i hangUp
    have received : (source.receive s.channel.read.1).1 ≠ .hangUp := by
      unfold Input.Source.receive
      rw [if_neg (by simp [bytes])]
      simp only
      split <;> simp
    exact absurd hangUp received

/-- Once the editor of a shell has been removed, nothing that is typed is acted upon. -/
structure QuietLaw (call : Program σ → Act σ Reply) (s : Session σ) : Prop where
  /-- Texts and readings have no effect any more. -/
  later : s.editor.installed = false → s.Silent
  /-- Nor has the rest of the text that is being fed. -/
  rest : ∀ text more t, (feed call text).result s = (.ok ⟨⟩, t) → t.editor.installed = false →
    ∃ d, (feed call (text ++ more)).result s = (.ok ⟨⟩, t.setDecoder d)
  /-- Where the text has been given up, the rest is not even decoded. -/
  givenUp : ∀ text more i t, (feed call text).result s = (.error i, t) →
    (feed call (text ++ more)).result s = (.error i, t)
  /-- Nor have the other keys of the character that is being handled. -/
  keys : ∀ (keys more : List Key) t, (keys.forM (deliverKey call)).result s = (.ok ⟨⟩, t) →
    t.editor.installed = false →
    ∃ d, ((keys ++ more).forM (deliverKey call)).result s = (.ok ⟨⟩, t.setDecoder d)

theorem quietLaw (call : Program σ → Act σ Reply) (s : Session σ) : QuietLaw call s where
  later := silent_of_removed
  rest := fun _ more _ fed removed => result_feed_append_of_removed fed removed more
  givenUp := fun _ more _ _ fed => result_feed_append_of_error fed more
  keys := fun _ more _ delivered removed => result_forM_deliverKey_append delivered removed more

/-- Nothing that is typed after a shell has been asked to end is acted upon, however it has been
asked: by a command, the callback of a request, the end of the input, a hang-up or a signal. To be
asked removes the editor; while programs do not install it again it stays removed, over all moves of
the shell and however a text that is fed ends; and a shell with a removed editor is quiet. -/
theorem quiet_of_course {depth limit : Nat} {s₀ : Session σ} {ds : List (Delivery σ)}
    (course : Course onwardRules depth s₀ ds s)
    (begun : s₀.quitting = true → s₀.editor.installed = false)
    (follows : s₀.Follows onwardRules) :
    (∀ t : Session σ, t.quit.Ending True ∧ QuietLaw (Program.exec limit) t) ∧
      s.Ending (s₀.quitting = true) ∧
      ∀ text r t, (feed (Program.exec limit) text).result s = (r, t) →
        t.Ending (s₀.quitting = true) := by
  obtain ⟨ending, held⟩ : s.Ending (s₀.quitting = true) ∧ s.Follows onwardRules :=
    ending_of_course course ⟨begun, id⟩ follows
  refine ⟨fun t => ⟨?_, quietLaw _ t⟩, ending, fun text r t run => ?_⟩
  · obtain ⟨_, _, _, framed⟩ := t.quit_frame
    rw [framed]
    exact .of_quitting rfl rfl
  · exact ending_of_fed ending held run

theorem follows_leaving : (bareShell [] () : Session Unit).beginRun.Follows onwardRules := by
  have bare : (bareShell [] () : Session Unit).Follows onwardRules :=
    follows_bareShell (fun _ _ => trivial) trivial trivial fun _ he => (nomatch he)
  exact bare.congr rfl rfl rfl rfl

/-- A command that is typed behind the one that quits is not run. -/
theorem help_unread : ∃ t d,
    (feed (Program.exec 4) "quit\r".toList).result (bareShell [] ()).beginRun = (.ok ⟨⟩, t) ∧
      t.editor.history.entries = ["quit"] ∧ t.Silent ∧
      (feed (Program.exec 4) "quit\rhelp\r".toList).result (bareShell [] ()).beginRun =
        (.ok ⟨⟩, t.setDecoder d) := by
  let fed := (feed (Program.exec 4) "quit\r".toList).result (bareShell [] ()).beginRun
  have run : fed.1.isOk = true ∧ fed.2.quitting = true ∧
      fed.2.editor.history.entries = ["quit"] := by
    decide +kernel
  obtain ⟨ok, quitting, kept⟩ := run
  rcases hf : fed with ⟨_ | _, t⟩
  · rw [hf] at ok
    cases ok
  · rw [hf] at quitting kept
    have still : Course onwardRules 4 (bareShell [] ()).beginRun [] (bareShell [] ()).beginRun :=
      .start
    obtain ⟨quiet, -, fed⟩ := quiet_of_course still (by decide) follows_leaving
    have removed : t.editor.installed = false := (fed _ _ t hf).removed quitting
    obtain ⟨d, rest⟩ := (quiet _).2.rest _ "help\r".toList t hf removed
    exact ⟨t, d, hf, kept, (quiet t).2.later removed, rest⟩

end LineShell
