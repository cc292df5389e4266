import LineShell.Proofs.Silence

/-!
# What a removed editor still draws

Most drawings of the prompt ask whether the editor accepts keys. Those behind a completion and
behind a part with the edit line blanked do not, and neither does the one that an interrupt leads to.
So a shell whose editor has been removed draws a prompt for each interrupt while an input is
attached, and one at the end of a completion or of a blanked part that the removal fell into; all
else that it does leaves the prompt alone.
-/

namespace LineShell

open Act Edit Session

variable {σ : Type} {call : Program σ → Act σ Reply} {s t : Session σ} {n : Nat}

/-! ### Counting the prompts drawn -/

def Edit.Write.isRedraw : Write → Bool
  | .redraw .. => true
  | _ => false

def Edit.Editor.redraws (e : Editor) : Nat := e.writes.countP Write.isRedraw

namespace Edit.Editor

@[simp] theorem redraws_redisplay (e : Editor) : e.redisplay.redraws = e.redraws + 1 :=
  List.countP_cons_of_pos rfl

@[simp] theorem redraws_resume (e : Editor) (line : Line) :
    (e.resume line).redraws = e.redraws + 1 := by
  rw [resume, redraws_redisplay]
  rfl

@[simp] theorem redraws_write (e : Editor) (text : String) : (e.write text).redraws = e.redraws := by
  unfold write
  split <;> rfl

theorem redisplayIfInstalled_of_removed {e : Editor} (removed : e.installed = false) :
    e.redisplayIfInstalled = e := by
  simp [redisplayIfInstalled, removed]

theorem active_of_removed {e : Editor} (removed : e.installed = false) : e.active = false := by
  simp [active, removed]

end Edit.Editor

structure Session.Drawn (n : Nat) (s : Session σ) : Prop where
  removed : s.editor.installed = false
  redraws : s.editor.redraws = n

theorem Session.Drawn.congr (h : s.Drawn n) (installed : t.editor.installed = s.editor.installed)
    (redraws : t.editor.redraws = s.editor.redraws) : t.Drawn n :=
  ⟨installed.trans h.removed, redraws.trans h.redraws⟩

theorem Session.Drawn.redisplayIfInstalled (h : s.Drawn n) {e : Editor}
    (editor : t.editor = e.redisplayIfInstalled) (installed : e.installed = s.editor.installed)
    (redraws : e.redraws = s.editor.redraws) : t.Drawn n := by
  have removed : e.installed = false := installed.trans h.removed
  rw [Editor.redisplayIfInstalled_of_removed removed] at editor
  exact h.congr ((congrArg _ editor).trans installed) ((congrArg _ editor).trans redraws)

/-! ### Programs -/

/-- Programs may use everything but what makes the editor accept keys again and what draws the
prompt, or shows a command, whether keys are accepted or not. -/
def retiredRules : Rules where
  uses
    | .install _ | .start _ | .redisplay | .line none | .signal .interrupt => False
    | _ => True
  blanks := True
  callbacksGiveUp := true

theorem drawn_change {f : Session σ → Session σ} (h : s.Drawn n) (c : Change retiredRules s f) :
    (f s).Drawn n := by
  cases c with
  | print text =>
      have straight := Editor.print_of_not_active (Editor.active_of_removed h.removed) text
      refine h.congr ?_ ?_ <;> simp [printText, onEditor, straight]
  | ask => exact h.redisplayIfInstalled rfl rfl rfl
  | answer => exact h.redisplayIfInstalled rfl rfl rfl
  | prompt text =>
      simp only [Session.setPrompt]
      split
      · exact h.redisplayIfInstalled rfl rfl rfl
      · exact h
  | retire | terminate => exact ⟨rfl, h.redraws⟩
  | interrupt attached signals => exact signals.elim
  | printLine starts | adopt starts | store starts | load starts | begin starts =>
      exact starts.elim
  | install installs => exact installs.elim
  | _ => exact h.congr rfl rfl

theorem stable_drawn : Stable retiredRules (Invariant (σ := σ) retiredRules (Drawn n)) :=
  .ofInvariant drawn_change

theorem unattached_drawn : Unattached (σ := σ) (Drawn n) where
  inlet := fun _ _ _ h => h.congr rfl rfl
  handlers := fun h => h.congr rfl rfl
  torn := fun h => h.congr rfl rfl
  left := by
    intro s h
    have shown : (s.onEditor (·.showMessage "")).Drawn n := h.redisplayIfInstalled rfl rfl rfl
    exact ⟨rfl, shown.redraws⟩
  ended := fun h => h.congr rfl rfl

theorem drawn_edit {op : Operation} {f : Editor → Editor} (h : s.Drawn n)
    (allowed : retiredRules.uses op) (edits : op.edits? = some f) : (s.onEditor f).Drawn n := by
  cases op with
  | remove =>
      cases edits
      exact ⟨rfl, h.redraws⟩
  | editorPrompt | restorePrompt | message =>
      cases edits
      exact h.redisplayIfInstalled rfl rfl rfl
  | write text =>
      cases edits
      exact h.congr (s.editor.installed_write text) (s.editor.redraws_write text)
  | redisplay => exact allowed.elim
  | savePrompt | clearMessage | newRow | replaceLine | insertText | movePoint =>
      cases edits
      exact h.congr rfl rfl
  | _ => cases edits

/-- Programs that run while the editor is removed leave the prompt alone. -/
theorem closed_drawn : Closed retiredRules (Invariant (σ := σ) retiredRules (Drawn n)) := by
  refine .ofFeed stable_drawn ?feed ?edit (fun shows _ => shows.elim) ?blanked
    (fun d _ => unattached_drawn.attach stable_drawn d)
    (fun _ => unattached_drawn.detach stable_drawn) fun _ => unattached_drawn.tearDown stable_drawn
  case feed =>
    rintro call - text - s _ ⟨rfl, h, follows⟩
    rw [result_feed_of_removed h.removed]
    exact (ends_ok ..).2 ⟨rfl, h, follows⟩
  case edit =>
    rintro s _ op f ⟨rfl, h, follows⟩ allowed edits
    exact ⟨rfl, drawn_edit h allowed edits, follows.congr rfl rfl rfl rfl⟩
  case blanked =>
    rintro body body' b - run s _ ⟨rfl, h, follows⟩
    simp only [suspended, result_get_bind, Editor.active_of_removed h.removed]
    exact run s s ⟨rfl, h, follows⟩

/-! ### Signals -/

/-- A signal that throws the line away draws the prompt, also where the editor has been removed. -/
theorem drawn_receiveSignal {signal : Signal} (h : s.Drawn n) (follows : s.Follows retiredRules) :
    (s.receiveSignal signal).Drawn (n + if Delivery.clears ⟨s, signal⟩ then 1 else 0) := by
  obtain ⟨-, clears, same⟩ | ⟨-, clears, same⟩ | ⟨-, clears, same⟩ := receiveSignal_cases s signal <;>
    rw [same, clears]
  · have kept : Invariant retiredRules (Drawn n) s.terminate s.terminate :=
      stable_drawn.terminate (show retiredRules.custom.uses (.signal .terminate) from trivial)
        ⟨rfl, h, follows⟩
    exact kept.2.1
  · exact ⟨h.removed, (Editor.redraws_redisplay _).trans (congrArg (· + 1) h.redraws)⟩
  · exact h

/-! ### Operations in progress -/

/-- The prompt has been drawn once more, and keys are accepted as before. -/
structure Session.DrawnOnce (s t : Session σ) : Prop where
  installed : t.editor.installed = s.editor.installed
  redraws : t.editor.redraws = s.editor.redraws + 1

/-- What completions have in common behind the word before the point. -/
def Session.common (s : Session σ) (found : List String) : List Char :=
  Completion.commonSuffix s.editor.line.before (Completion.word s.editor.line.before).length
    (found.map String.toList)

/-- What is drawn behind the last program of an operation, which has left the shell in `u`. -/
structure LastDraw (call : Program σ → Act σ Reply) (s : Session σ) : Prop where
  /-- Nothing, where a completed line has been handled, or the end of the input. -/
  line : ∀ r u, (consume call (some s.editor.line.toString)).result s.beginLine = (r, u) →
    u.editor.installed = false → (acceptLine call).result s = (r, u.leaveLine)
  inputEnd : s.consumer = .commands → (endOfInput call).result s =
    (.ok ⟨⟩, (s.onEditor fun e => { e with handling := true }).endInput.dropLine)
  /-- The prompt, where completions have been shown by a hook or in columns, -/
  shown : ∀ hook word found reply u, s.completion.bind (·.displayHook) = some hook →
    (call (hook word found (Columns.longest found))).result s = (.ok reply, u) →
    (showCompletions call word found).result s = (.ok ⟨⟩, u.onEditor (·.redisplay))
  listed : ∀ word found, s.completion.bind (·.displayHook) = none →
    ∃ t, (showCompletions call word found).result s = (.ok ⟨⟩, t) ∧ s.DrawnOnce t
  /-- or a single completion has taken the place of the word, or what several have in common has been
  added to it; where they have nothing in common they are shown, and where there are none nothing is
  drawn, -/
  completed : ∀ only u, s.completion.isSome = true →
    (completeWord call s.editor.line).result s = (.ok [only], u) →
    ∃ t, (completeKey call).result s = (.ok ⟨⟩, t) ∧ u.DrawnOnce t
  extended : ∀ found u, s.completion.isSome = true → 2 ≤ found.length →
    (completeWord call s.editor.line).result s = (.ok found, u) → s.common found ≠ [] →
    ∃ t, (completeKey call).result s = (.ok ⟨⟩, t) ∧ u.DrawnOnce t
  several : ∀ found u, s.completion.isSome = true → 2 ≤ found.length →
    (completeWord call s.editor.line).result s = (.ok found, u) → s.common found = [] →
    (completeKey call).result s = (showCompletions call
      (String.ofList (Completion.word s.editor.line.before)) found).result u
  none : ∀ u, s.completion.isSome = true →
    (completeWord call s.editor.line).result s = (.ok [], u) →
    (completeKey call).result s = (.ok ⟨⟩, u)
  /-- or the edit line had been blanked. -/
  blanked : ∀ (body : Act σ Reply) r u, s.editor.active = true →
    body.result (s.onEditor (·.blank)) = (r, u) →
    ∃ t, (suspended body).result s = (r, t) ∧ u.DrawnOnce t

/-- Several completions are shown, unless they have something in common that can be added. -/
theorem result_completeKey_of_several {u : Session σ} {found : List String}
    (completes : s.completion.isSome = true) (several : 2 ≤ found.length)
    (asked : (completeWord call s.editor.line).result s = (.ok found, u)) :
    (completeKey call).result s =
      (if (s.common found).isEmpty then
        showCompletions call (String.ofList (Completion.word s.editor.line.before)) found
      else modify (·.onEditor fun e => (e.insertText (s.common found)).redisplay)).result u := by
  obtain ⟨first, second, rest, rfl⟩ : ∃ a b rest, found = a :: b :: rest := by
    rcases found with _ | ⟨a, _ | ⟨b, rest⟩⟩
    · simp at several
    · simp at several
    · exact ⟨a, b, rest, rfl⟩
  have engine : s.completion.isNone = false := by simpa using completes
  simp only [completeKey, result_get_bind, engine]
  rw [if_neg Bool.false_ne_true, result_bind, asked]
  rfl

theorem lastDraw (call : Program σ → Act σ Reply) (s : Session σ) : LastDraw call s where
  line := by
    intro r u consumed removed
    have silent : u.leaveLine.onEditor (·.redisplayIfInstalled) = u.leaveLine := by
      simp [leaveLine, onEditor, Editor.redisplayIfInstalled, removed]
    rw [result_acceptLine, consumed]
    cases r with
    | error i => rfl
    | ok _ => exact congrArg (Prod.mk _) silent
  inputEnd := result_endOfInput
  shown := by
    intro hook word found reply u hooked called
    simp only [showCompletions, result_get_bind, hooked]
    rw [result_bind, called]
    rfl
  listed := by
    intro word found hookless
    let rows := Columns.layout found (Columns.terminalWidth s.host.env)
    refine ⟨(s.onEditor (·.emit (.listing rows))).onEditor (·.redisplay), ?_, rfl, ?_⟩
    · simp only [showCompletions, result_get_bind, hookless]
      rfl
    · exact (Editor.redraws_redisplay _).trans rfl
  completed := by
    intro only u completes found
    let place (l : Line) : Line :=
      (l.deleteBefore (Completion.word s.editor.line.before).length).insert (only.toList ++ [' '])
    let placed : Editor := { u.editor with line := place u.editor.line }
    refine ⟨{ u with editor := placed.redisplay }, ?_, rfl, placed.redraws_redisplay⟩
    have engine : s.completion.isNone = false := by simpa using completes
    simp only [completeKey, result_get_bind, engine]
    rw [if_neg Bool.false_ne_true, result_bind, found]
    rfl
  extended := by
    intro found u completes several asked some
    refine ⟨u.onEditor fun e => (e.insertText (s.common found)).redisplay, ?_, rfl,
      (Editor.redraws_redisplay _).trans rfl⟩
    rw [result_completeKey_of_several completes several asked,
      if_neg (by simpa [Session.common] using some)]
    rfl
  several := by
    intro found u completes several asked none
    rw [result_completeKey_of_several completes several asked,
      if_pos (by simpa [Session.common] using none)]
  none := by
    intro u completes found
    have engine : s.completion.isNone = false := by simpa using completes
    simp only [completeKey, result_get_bind, engine]
    rw [if_neg Bool.false_ne_true, result_bind, found]
    rfl
  blanked := by
    intro body r u active ran
    refine ⟨u.onEditor (·.resume s.editor.line), ?_, rfl, Editor.redraws_resume _ _⟩
    simp only [suspended, result_get_bind, active, if_true, result_modify_bind, result_ensuring,
      ran]

/-! ### The law -/

/-- While the editor of a shell is removed, the prompt is drawn once for each interrupt that is
delivered while an input is attached, and never else; and of the operations that the removal may fall
into only completions and blanked parts draw it once more at their end. -/
theorem drawn_of_course {depth : Nat} {s₀ : Session σ} {ds : List (Delivery σ)}
    (course : Course retiredRules depth s₀ ds s) (removed : s₀.editor.installed = false)
    (follows : s₀.Follows retiredRules) :
    s.Drawn (s₀.editor.redraws + ds.countP Delivery.clears) ∧
      ∀ (t : Session σ) limit, LastDraw (Program.exec limit) t := by
  refine ⟨?_, fun t limit => lastDraw _ t⟩
  refine (course.invariant (P := fun ds => Drawn (s₀.editor.redraws + ds.countP Delivery.clears))
    (fun _ => closed_drawn) ?_ (fun _ h => h.congr rfl rfl) ⟨removed, rfl⟩ follows).1
  intro ds s signal h follows
  rw [List.countP_append, List.countP_singleton, ← Nat.add_assoc]
  exact drawn_receiveSignal h follows

def endedShell : Session Unit := ({ bareShell [] () with input := some .unknown }.beginRun).quit

/-- An interrupt draws the prompt of a shell that has been asked to end. -/
theorem redraws_interrupted : endedShell.editor.installed = false ∧
    (endedShell.receiveSignal .interrupt).Drawn (endedShell.editor.redraws + 1) := by
  have follows : endedShell.Follows retiredRules := by
    have bare : (bareShell [] () : Session Unit).Follows retiredRules :=
      follows_bareShell (fun _ _ => trivial) trivial trivial fun _ he => (nomatch he)
    exact bare.congr rfl rfl rfl rfl
  have course : Course retiredRules 1 endedShell [⟨endedShell, .interrupt⟩]
      (endedShell.receiveSignal .interrupt) := .signal .start .interrupt
  exact ⟨rfl, (drawn_of_course course rfl follows).1⟩

end LineShell
