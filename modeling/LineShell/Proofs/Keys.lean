import LineShell.Proofs.Editor
import LineShell.Proofs.Programs
import LineShell.Session.Execution

/-!
# What keys keep

Keys change the edit line, ask generators for completions, and hand completed lines on. One relation
holds between keys, and another one while a completed line is handled; where both are kept by the
changes of programs, and each change of a key keeps the first, any text may be fed.
-/

namespace LineShell

open Act Edit Session

variable {σ : Type} {custom : Custom σ} {R B : Link σ} {E : Interrupt → Link σ} {s s' : Session σ}
  {call : Program σ → Act σ Reply}

/-- The changes that keys make to a shell in a state, each one as a whole, apart from handing a line
on. -/
inductive KeyChange (custom : Custom σ) (s : Session σ) : (Session σ → Session σ) → Prop
  | edit (f : Line → Line) :
      KeyChange custom s (·.onEditor fun e => { e with line := f e.line }.redisplay)
  | newer : KeyChange custom s (·.onEditor fun e => e.recallNewer.redisplay)
  | older (found : s.editor.recallOlder.2 = false) :
      KeyChange custom s (·.onEditor fun e => e.recallOlder.1.redisplay)
  /-- The history holds no entry at the position. -/
  | astray (missing : s.editor.recallOlder.2 = true) :
      KeyChange custom s (·.onEditor fun e => e.recallOlder.1)
  | list (rows : List String) :
      KeyChange custom s (·.onEditor fun e => (e.emit (.listing rows)).redisplay)
  | draw : KeyChange custom s (·.onEditor (·.redisplay))
  | hook (f : Option (String → List String → Nat → Program σ))
      (held : ∀ g, f = some g →
        ∀ word found longest, custom.held true (g word found longest)) :
      KeyChange custom s (·.setDisplayHook f)
  | attempt (nothing : Bool) : KeyChange custom s (·.setAttemptOver nothing)
  | afterReturn (b : Bool) : KeyChange custom s (·.onEditor fun e => { e with afterReturn := b })
  | decode (f : KeyDecoder → KeyDecoder) :
      KeyChange custom s (·.onEditor fun e => { e with decoder := f e.decoder })

/-- The history is kept in a file whose path cannot name one. -/
def Session.HistoryBlocked (s : Session σ) : Prop :=
  ∃ path, s.editor.history.file = some path ∧ path.hasNul = true

/-- What may end the handling of a completed line in a state. -/
def Session.MayEndLine (custom : Custom σ) (i : Interrupt) (s : Session σ) : Prop :=
  i.MayEnd custom.callbacksGiveUp ∨ i = .failure (.file .nul) ∧ s.HistoryBlocked

def Session.beginLine (s : Session σ) : Session σ :=
  s.onEditor fun e => { e.endRow with line := {}, recalled := none, handling := true }

def Session.leaveLine (s : Session σ) : Session σ :=
  s.onEditor fun e => { e with handling := false }

def Session.showQuit (s : Session σ) : Session σ :=
  let shown := s.onEditor fun e =>
    ((({ e with handling := true }.insertText "quit".toList).redisplay).newRow).remove
  { shown with quitting := true }

def Session.dropLine (s : Session σ) : Session σ :=
  s.onEditor fun e => { e with handling := false, line := {} }

/-- One editor takes keys as another one does. -/
structure Edit.Editor.KeyedAs (e e' : Editor) : Prop where
  line : e'.line = e.line
  decoder : e'.decoder = e.decoder
  installed : e'.installed = e.installed
  handling : e'.handling = e.handling
  afterReturn : e'.afterReturn = e.afterReturn
  missing : e'.recallOlder.2 = e.recallOlder.2

theorem Edit.Editor.KeyedAs.refl (e : Editor) : e.KeyedAs e := by
  constructor <;> rfl

/-- Relations that keys keep: `R` between keys, `B` while a completed line is handled, and `E` where
a key was given up. -/
structure KeysKeep (custom : Custom σ) (R B : Link σ) (E : Interrupt → Link σ) : Prop where
  idle : Stable custom R
  busy : Stable custom B
  keyed : ∀ {s s'}, R s s' → s.editor.KeyedAs s'.editor
  change : ∀ {s s' f}, R s s' → KeyChange custom s f → R (f s) (f s')
  failed : ∀ {i s s'}, R s s' → E i s s'
  begin : ∀ {s s'}, R s s' → s.editor.installed = true → B s.beginLine s'.beginLine
  leave : ∀ {s s'}, B s s' →
    R (s.leaveLine.onEditor (·.redisplayIfInstalled))
      (s'.leaveLine.onEditor (·.redisplayIfInstalled))
  givenUp : ∀ {i s s'}, B s s' → s.MayEndLine custom i → E i s.leaveLine s'.leaveLine
  endInput : ∀ {s s'}, R s s' → B s.showQuit s'.showQuit
  drop : ∀ {s s'}, B s s' → s.editor.installed = false → R s.dropLine s'.dropLine
  broken : ∀ {i s s'}, E i s s' → E i s.breakKeys s'.breakKeys

/-! ### Handling -/

theorem result_handled (call : Program σ → Act σ Reply) (keys : List Key) (s : Session σ) :
    (ensuring (handleKeys call keys) breakKeys).result s =
      match (keys.forM (deliverKey call)).result s with
      | (.ok _, t) => (.ok ⟨⟩, t.readyKeys)
      | (.error i, t) => (.error i, t.breakKeys) := by
  rw [result_ensuring, handleKeys, result_bind]
  rcases (keys.forM (deliverKey call)).result s with ⟨_ | _, t⟩ <;> rfl

theorem ends_handled {M : Link σ} {F : Interrupt → Link σ} {call' : Program σ → Act σ Reply}
    {keys : List Key} (h : Ends M F ((keys.forM (deliverKey call)).result s)
      ((keys.forM (deliverKey call')).result s'))
    (ready : ∀ t t', M t t' → R t.readyKeys t'.readyKeys)
    (broken : ∀ i t t', F i t t' → E i t.breakKeys t'.breakKeys) :
    Ends R E ((ensuring (handleKeys call keys) breakKeys).result s)
      ((ensuring (handleKeys call' keys) breakKeys).result s') := by
  rw [result_handled, result_handled]
  revert h
  rcases (keys.forM (deliverKey call)).result s with ⟨_ | _, t⟩ <;>
    rcases (keys.forM (deliverKey call')).result s' with ⟨_ | _, t'⟩
  · rintro ⟨same, h⟩
    cases same
    exact (ends_error ..).2 (broken _ _ _ h)
  · exact fun h => nomatch h.1
  · exact fun h => nomatch h.1
  · exact fun h => (ends_ok ..).2 (ready _ _ h.2)

/-! ### The history -/

theorem Files.Store.hasNul_of_append {store : Files.Store} {path : Path} {bytes : List UInt8}
    (h : store.append path bytes = .error .nul) : path.hasNul = true := by
  unfold append at h
  split at h
  · assumption
  · split at h
    · cases h
    · split at h <;> cases h

theorem Edit.History.file_remember (h : History) (line : String) :
    (h.remember line).file = h.file := by
  unfold remember
  split <;> rfl

theorem Edit.History.fst_add (h : History) (store : Files.Store) (time line : String) :
    (h.add store time line).1 = h.accepts line ∧
      (h.add store time line).2.1 = h.remember line := by
  unfold add remember
  split
  · split
    · simp_all
    · split <;> simp_all
  · simp_all

theorem Edit.History.file_add (h : History) (store : Files.Store) (time line : String) :
    (h.add store time line).2.1.file = h.file := by
  unfold add
  split
  · split
    · exact h.file_remember line
    · split <;> exact h.file_remember line
  · rfl

/-- Only a path that holds NUL is refused as none. -/
theorem Edit.History.hasNul_of_add {h : History} {store : Files.Store} {time line : String}
    (hf : (h.add store time line).2.2.2 = some .nul) :
    ∃ path, h.file = some path ∧ path.hasNul = true := by
  unfold add at hf
  split at hf
  · split at hf
    · cases hf
    · rename_i path hp
      split at hf
      · cases hf
      · rename_i fault ha
        cases hf
        exact ⟨path, hp, Files.Store.hasNul_of_append ha⟩
  · cases hf

theorem Stable.remember (st : Stable custom R) (line : String) (h : R s s') :
    Ends R (fun i t t' => R t t' ∧ i = .failure (.file .nul) ∧ t.HistoryBlocked)
      ((Session.remember line).result s) ((Session.remember line).result s') := by
  simp only [Session.remember, result_get_bind]
  rw [(st.similar h).history, (st.similar h).store, (st.similar h).entryTime]
  have file := s.editor.history.file_add s.host.store s.host.entryTime line
  have remembered := (s.editor.history.fst_add s.host.store s.host.entryTime line).2
  have blocked := @History.hasNul_of_add s.editor.history s.host.store s.host.entryTime line
  rcases hadd : s.editor.history.add s.host.store s.host.entryTime line with
    ⟨kept, history, store, fault⟩
  rw [hadd] at file remembered blocked
  have added := st.change h (.remember history store file ⟨line, remembered⟩)
  simp only [result_modify_bind] at added ⊢
  rcases fault with _ | (⟨cause, path⟩ | _)
  · exact (ends_ok ..).2 added
  · exact (ends_ok ..).2 (st.log _ added)
  · obtain ⟨path, hp, hn⟩ := blocked rfl
    exact (ends_error ..).2 ⟨added, rfl, path, file.trans hp, hn⟩

theorem Command.Registry.mem_of_resolveGenerator? {π : Type} {r : Command.Registry π}
    {name : String} {e : Command.Entry π} {g : String → Nat → π}
    (h : r.resolveGenerator? name = some (e, g)) :
    ∃ table ∈ r.tables, e ∈ table.entries ∧ e.generator = some g := by
  obtain ⟨table, hm, ht⟩ := List.exists_of_findSome?_eq_some h
  obtain ⟨e', he, hg⟩ := Option.bind_eq_some_iff.1 ht
  obtain ⟨g', hg', heq⟩ := Option.map_eq_some_iff.1 hg
  cases heq
  exact ⟨table, List.mem_reverse.1 hm, List.mem_of_find?_eq_some he, hg'⟩

/-! ### Completed lines -/

theorem Session.installed_log (s : Session σ) (e : Log.Event) :
    (s.log e).editor.installed = s.editor.installed := by
  obtain ⟨_, _, _, h⟩ := s.log_frame e
  rw [h]

/-- What is left where the handling of a completed line was given up. -/
def LineGivenUp (custom : Custom σ) (B : Link σ) (i : Interrupt) : Link σ :=
  fun s s' => B s s' ∧ s.MayEndLine custom i

theorem Stable.completeLine (st : Stable custom B) (hc : Runs custom B call) (line : String)
    (h : B s s') :
    Ends B (LineGivenUp custom B) ((Session.completeLine call (some line)).result s)
      ((Session.completeLine call (some line)).result s') := by
  simp only [Session.completeLine]
  split
  · exact (ends_ok ..).2 h
  · refine Ends.bind ((st.release hc line h).weaken (fun _ _ ht => ht)
      fun i t t' ht => ⟨ht.1, .inl ht.2⟩) fun answered t t' ht => ?_
    split
    · exact (ends_ok ..).2 ht
    · refine Ends.bind ((st.remember line ht).weaken (fun _ _ hu => hu)
        fun i u u' hu => ⟨hu.1, .inr hu.2⟩) fun _ u u' hu => ?_
      exact (st.dispatch hc line _ hu).weaken (fun _ _ hv => hv)
        fun i v v' hv => ⟨hv.1, .inl hv.2⟩

/-- At the end of the input a command to quit is shown, and the line is empty afterwards. -/
theorem Session.result_endOfInput {s : Session σ} (h : s.consumer = .commands) :
    (Session.endOfInput call).result s =
      (.ok ⟨⟩, (s.onEditor fun e => { e with handling := true }).endInput.dropLine) := by
  have consumed : (consume call none).result (s.onEditor fun e => { e with handling := true }) =
      (.ok ⟨⟩, (s.onEditor fun e => { e with handling := true }).endInput) := by
    simp only [consume, result_get_bind, Session.onEditor, h]
    rfl
  simp only [Session.endOfInput, result_modify_bind]
  rw [result_bind, result_ensuring, consumed]
  rfl

/-- A completed line is handed on between the end of its row and the next drawing. -/
theorem Session.result_acceptLine (call : Program σ → Act σ Reply) (s : Session σ) :
    (Session.acceptLine call).result s =
      match (consume call (some s.editor.line.toString)).result s.beginLine with
      | (.ok _, t) => (.ok ⟨⟩, t.leaveLine.onEditor (·.redisplayIfInstalled))
      | (.error i, t) => (.error i, t.leaveLine) := by
  simp only [acceptLine, result_get_bind, result_modify_bind]
  rw [result_bind, result_ensuring, ← beginLine]
  rcases (consume call (some s.editor.line.toString)).result s.beginLine with ⟨_ | _, t⟩ <;> rfl

namespace KeysKeep

theorem step (k : KeysKeep custom R B E) {f : Session σ → Session σ} (c : KeyChange custom s f)
    (h : R s s') {t t' : Session σ} (ht : f s = t) (ht' : f s' = t') :
    R t t' :=
  ht ▸ ht' ▸ k.change h c

theorem acceptLine (k : KeysKeep custom R B E) (hc : Runs custom B call) (h : R s s')
    (installed : s.editor.installed = true) :
    Ends R E ((Session.acceptLine call).result s) ((Session.acceptLine call).result s') := by
  have begun := k.begin h installed
  have consumed : Ends B (LineGivenUp custom B)
      ((consume call (some s.editor.line.toString)).result s.beginLine)
      ((consume call (some s.editor.line.toString)).result s'.beginLine) := by
    simp only [consume, result_get_bind, (k.busy.similar begun).consumer,
      (k.busy.held begun).consumer]
    exact k.busy.completeLine hc _ begun
  simp only [Session.acceptLine, result_get_bind, result_modify_bind]
  rw [(k.keyed h).line]
  refine Ends.bind (M := fun t t' => ∃ u u', B u u' ∧ t = u.leaveLine ∧ t' = u'.leaveLine)
    (consumed.ensuring (fun u u' hu => ⟨u, u', hu, rfl, rfl⟩)
      fun i u u' hu => k.givenUp hu.1 hu.2) ?_
  rintro _ _ _ ⟨u, u', hu, rfl, rfl⟩
  exact (ends_ok ..).2 (k.leave hu)

theorem endOfInput (k : KeysKeep custom R B E) (h : R s s') :
    Ends R E ((Session.endOfInput call).result s) ((Session.endOfInput call).result s') := by
  have quit : B (s.onEditor fun e => { e with handling := true }).endInput
      (s'.onEditor fun e => { e with handling := true }).endInput :=
    k.busy.step .stop (k.busy.log ⟨.debug, "Quit requested", []⟩ (k.endInput h)) rfl rfl
  have removed :
      (s.onEditor fun e => { e with handling := true }).endInput.editor.installed = false :=
    installed_log s.showQuit _
  have consumer := (k.idle.held h).consumer
  rw [result_endOfInput consumer, result_endOfInput ((k.idle.similar h).consumer.trans consumer)]
  exact (ends_ok ..).2 (k.drop quit removed)

/-! ### Completion -/

theorem collect (k : KeysKeep custom R B E) (hc : Runs custom R call)
    {generator : String → Nat → Program σ}
    (hg : ∀ text number, custom.held true (generator text number)) (text : String)
    (left number : Nat) (h : R s s') :
    Ends R E ((Session.collect call generator text left number).result s)
      ((Session.collect call generator text left number).result s') := by
  induction left generalizing number s s' with
  | zero => exact (ends_ok ..).2 (k.idle.log _ h)
  | succ left ih =>
      unfold Session.collect
      refine Ends.bind ((hc _ _ (hg text number) s s' h).weaken (fun _ _ ht => ht)
        fun i t t' ht => k.failed ht.1) fun reply t t' ht => ?_
      split
      · exact Ends.bind (ih (number + 1) ht) fun _ u u' hu => (ends_ok ..).2 hu
      · exact (ends_ok ..).2 ht

theorem completeArgument (k : KeysKeep custom R B E) (hc : Runs custom R call) (text : String)
    (before : List Char) (h : R s s') :
    Ends R E ((Session.completeArgument call text before).result s)
      ((Session.completeArgument call text before).result s') := by
  simp only [Session.completeArgument]
  split
  · exact (ends_ok ..).2 h
  · simp only [result_get_bind]
    rw [(k.idle.similar h).registry]
    cases hr : s.registry.resolveGenerator? (String.ofList (Text.firstWord before)) with
    | none => exact (ends_ok ..).2 h
    | some found =>
        obtain ⟨e, generator⟩ := found
        obtain ⟨table, hm, he, hg⟩ := Command.Registry.mem_of_resolveGenerator? hr
        have held := (k.idle.held h).commands table hm e he
        exact k.collect hc (held.generator generator hg) text Completion.limit 0
          (k.step (.hook e.displayHook held.hook) h rfl rfl)

theorem completeWord (k : KeysKeep custom R B E) (hc : Runs custom R call) (l : Line) (h : R s s') :
    Ends R E ((Session.completeWord call l).result s)
      ((Session.completeWord call l).result s') := by
  simp only [Session.completeWord, Session.complete, result_modify_bind]
  have begun := k.step (.attempt false) h rfl rfl
  refine Ends.bind (M := R) ?_ fun found t t' ht => ?_
  · unfold candidates
    split
    · have hooked := k.step (.hook none fun _ hf => (nomatch hf)) begun rfl rfl
      simp only [result_modify_bind, result_get_bind, result_pure]
      rw [(k.idle.similar hooked).registry]
      exact (ends_ok ..).2 hooked
    · exact k.completeArgument hc _ _ begun
  · split
    · exact (ends_ok ..).2 (k.step (.attempt true) ht rfl rfl)
    · exact (ends_ok ..).2 ht

theorem showCompletions (k : KeysKeep custom R B E) (hc : Runs custom R call) (word : String)
    (found : List String) (h : R s s') :
    Ends R E ((Session.showCompletions call word found).result s)
      ((Session.showCompletions call word found).result s') := by
  simp only [Session.showCompletions, result_get_bind]
  rw [(k.idle.similar h).completion, (k.idle.similar h).width]
  cases hk : s.completion.bind (·.displayHook) with
  | some hook =>
      obtain ⟨engine, he, hf⟩ := Option.bind_eq_some_iff.1 hk
      have held := (k.idle.held h).hook engine he hook hf
      refine Ends.bind ((hc _ _ (held word found _) s s' h).weaken (fun _ _ ht => ht)
        fun i t t' ht => k.failed ht.1) fun _ t t' ht => ?_
      exact (ends_ok ..).2 (k.step .draw ht rfl rfl)
  | none =>
      simp only [result_modify_bind, result_modify]
      exact (ends_ok ..).2 (k.change h (.list _))

theorem completeKey (k : KeysKeep custom R B E) (hc : Runs custom R call) (h : R s s') :
    Ends R E ((Session.completeKey call).result s) ((Session.completeKey call).result s') := by
  simp only [Session.completeKey, result_get_bind]
  rw [(k.idle.similar h).completion, (k.keyed h).line]
  split
  · exact (ends_ok ..).2 h
  · refine Ends.bind (k.completeWord hc _ h) fun found t t' ht => ?_
    split
    · exact (ends_ok ..).2 ht
    · exact (ends_ok ..).2 (k.step (.edit fun l =>
        (l.deleteBefore (Completion.word s.editor.line.before).length).insert _) ht rfl rfl)
    · split
      · exact k.showCompletions hc _ _ ht
      · exact (ends_ok ..).2 (k.step (.edit fun l => l.insert _) ht rfl rfl)

/-! ### Keys -/

theorem recallOlder (k : KeysKeep custom R B E) (h : R s s') :
    Ends R E ((Session.recallOlder : Act σ Unit).result s)
      ((Session.recallOlder : Act σ Unit).result s') := by
  simp only [Session.recallOlder, result_get_bind, result_modify_bind]
  rw [(k.keyed h).missing]
  cases hm : s.editor.recallOlder.2 with
  | true => exact (ends_error ..).2 (k.failed (k.change h (.astray hm)))
  | false => exact (ends_ok ..).2 (k.change h (.older hm))

theorem specialKey (k : KeysKeep custom R B E) (hr : Runs custom R call) (hb : Runs custom B call)
    (key : Key) (h : R s s') (installed : s.editor.installed = true) :
    Ends R E ((Session.specialKey call key).result s)
      ((Session.specialKey call key).result s') := by
  cases key with
  | carriageReturn => exact k.acceptLine hb h installed
  | lineFeed => exact k.acceptLine hb h installed
  | tab => exact k.completeKey hr h
  | older => exact k.recallOlder h
  | newer => exact (ends_ok ..).2 (k.step .newer h rfl rfl)
  | other name => exact (ends_ok ..).2 (k.idle.log _ h)
  | _ => exact (ends_ok ..).2 h

theorem pressKey (k : KeysKeep custom R B E) (hr : Runs custom R call) (hb : Runs custom B call)
    (key : Key) (h : R s s') :
    Ends R E ((Session.pressKey call key).result s) ((Session.pressKey call key).result s') := by
  simp only [Session.pressKey, result_get_bind]
  rw [(k.keyed h).installed, (k.keyed h).afterReturn, (k.keyed h).line]
  split
  · exact (ends_ok ..).2 h
  · rename_i accepted
    have installed : s.editor.installed = true := by simpa using accepted
    split
    · exact (ends_ok ..).2 (k.step (.afterReturn false) h rfl rfl)
    · simp only [result_modify_bind]
      have noted := k.step (.afterReturn (key = .carriageReturn)) h rfl rfl
      split
      · exact k.endOfInput noted
      · split
        · rename_i line _
          exact (ends_ok ..).2 (k.step (.edit fun _ => line) noted rfl rfl)
        · exact k.specialKey hr hb key noted installed

theorem deliverKey (k : KeysKeep custom R B E) (hr : Runs custom R call) (hb : Runs custom B call)
    (key : Key) (h : R s s') :
    Ends R E ((Session.deliverKey call key).result s)
      ((Session.deliverKey call key).result s') := by
  unfold Session.deliverKey
  split
  · exact (ends_ok ..).2 (k.step (.decode fun d => { d with paste := some [] }) h rfl rfl)
  · exact k.pressKey hr hb key h

theorem feedChar (k : KeysKeep custom R B E) (hr : Runs custom R call) (hb : Runs custom B call)
    (c : Char) (h : R s s') :
    Ends R E ((Session.feedChar call c).result s) ((Session.feedChar call c).result s') := by
  simp only [Session.feedChar, result_get_bind]
  rw [(k.keyed h).decoder]
  split
  · split
    · exact (ends_ok ..).2 (k.step (.decode fun _ => _) h rfl rfl)
    · refine Ends.bind (k.pressKey hr hb _ h) fun _ t t' ht => ?_
      exact (ends_ok ..).2 (k.step (.decode fun d => { d with paste := none }) ht rfl rfl)
  · split
    · exact (ends_error ..).2 (k.failed h)
    · rcases s.editor.decoder.read c with ⟨keys, d⟩
      simp only [result_modify_bind]
      have begun : R (s.setDecoder { d with progress := .busy })
          (s'.setDecoder { d with progress := .busy }) :=
        k.step (.decode fun _ => { d with progress := .busy }) h rfl rfl
      refine ends_handled (Ends.forM (fun key t t' ht => k.deliverKey hr hb key ht) keys begun)
        (fun t t' ht => ?_) fun _ _ _ ht => k.broken ht
      exact k.step (.decode fun d => { d with progress := .ready }) ht rfl rfl

/-- Feeding any text keeps what keys and programs keep. -/
theorem feed (k : KeysKeep custom R B E) (hr : Runs custom R call) (hb : Runs custom B call)
    (text : List Char) (h : R s s') :
    Ends R E ((Session.feed call text).result s) ((Session.feed call text).result s') := by
  simp only [Session.feed, result_get_bind]
  rw [(k.keyed h).installed]
  split
  · exact Ends.forM (fun c t t' ht => k.feedChar hr hb c ht) text h
  · exact (ends_ok ..).2 h

end KeysKeep

/-! ### Keys that edit -/

/-- A key that edits the line, and that neither ends it nor ends the input. -/
theorem result_pressKey_edit (call : Program σ → Act σ Reply) {k : Key} {line : Line}
    (installed : s.editor.installed = true)
    (feed : k ≠ .lineFeed) (control : k ≠ .controlD)
    (edits : Editor.edit? s.editor.line k = some line) :
    (pressKey call k).result s = (.ok ⟨⟩, s.onEditor fun e =>
      { e with afterReturn := k = Key.carriageReturn, line }.redisplay) := by
  simp only [pressKey, result_get_bind, installed, feed, control]
  simp only [Bool.not_true, Bool.false_eq_true, if_false, Bool.and_eq_true, decide_eq_true_eq,
    false_and, result_modify_bind, edits, result_modify]
  rfl

/-- Pasted text is never given up. It changes neither whether the editor is there, nor what is
being decoded. -/
theorem result_pressKey_pasted (call : Program σ → Act σ Reply) (s : Session σ)
    (content : List Char) : ∃ t, (pressKey call (.pasted content)).result s = (.ok ⟨⟩, t) ∧
      t.editor.installed = s.editor.installed ∧ t.editor.decoder = s.editor.decoder := by
  cases installed : s.editor.installed with
  | false =>
      refine ⟨s, ?_, installed, rfl⟩
      simp only [pressKey, result_get_bind, installed]
      rfl
  | true => exact ⟨_, result_pressKey_edit call installed (by simp) (by simp) rfl, installed, rfl⟩

/-! ### Operations that are not common -/

/-- What an operation on the editor alone does to it. -/
def Operation.edits? : Operation → Option (Editor → Editor)
  | .remove => some (·.remove)
  | .editorPrompt prompt => some (·.setPrompt prompt)
  | .savePrompt => some (·.savePrompt)
  | .restorePrompt => some (·.restorePrompt)
  | .message text => some (·.showMessage text)
  | .clearMessage => some (·.clearMessage)
  | .write text => some (·.write text)
  | .redisplay => some (·.redisplay)
  | .newRow => some (·.newRow)
  | .replaceLine text => some (·.replaceLine text.toList)
  | .insertText text => some (·.insertText text.toList)
  | .movePoint position => some (·.movePoint position)
  | _ => none

/-- A relation that every change and every feeding keeps, and that the operations on the editor and
on the input keep as far as programs may use them, is kept by all programs that are bound. -/
theorem Closed.ofFeed (st : Stable custom R)
    (feed : ∀ {call}, Runs custom R call → ∀ text, custom.uses (.feed text) →
      Lockstep R (Session.feed call text.toList) R fun _ => R)
    (edit : ∀ {s s' op f}, R s s' → custom.uses op → op.edits? = some f →
      R (s.onEditor f) (s'.onEditor f))
    (quit : ∀ {s s'}, custom.uses (.line none) → R s s' →
      R (s.onEditor fun e => ((e.insertText "quit".toList).redisplay).newRow)
        (s'.onEditor fun e => ((e.insertText "quit".toList).redisplay).newRow))
    (blanked : ∀ {body body' : Act σ Reply} {b}, custom.blanks →
      (∀ s s', R s s' → Ends R (GivenUp R b) (body.result s) (body'.result s')) →
      ∀ s s', R s s' →
        Ends R (GivenUp R b) ((suspended body).result s) ((suspended body').result s'))
    (attach : ∀ d, custom.uses (.attach d) → Lockstep R (Session.attach d) R fun _ => R)
    (detach : custom.uses .detach → Lockstep R Session.detach R fun _ => R)
    (tearDown : ∀ {call}, custom.uses .tearDown → Runs custom R call →
      Lockstep R (Session.tearDown call) R fun _ => R) : Closed custom R where
  toStable := st
  other := by
    intro call op hc allowed common s s' h
    cases op with
    | feed text =>
        exact Ends.bind (feed hc text allowed s s' h) fun _ t t' ht => (ends_ok ..).2 ht
    | addHistory line =>
        exact Ends.bind ((st.remember line h).weaken (fun _ _ ht => ht) fun _ _ _ ht => ht.1)
          fun _ t t' ht => (ends_ok ..).2 ht
    | line text =>
        cases text with
        | none => exact (ends_ok ..).2 (st.quit (quit allowed h))
        | some line =>
            exact Ends.bind ((st.completeLine hc line h).weaken (fun _ _ ht => ht)
              fun _ _ _ ht => ht.1) fun _ t t' ht => (ends_ok ..).2 ht
    | attach descriptor =>
        exact Ends.bind (attach descriptor allowed s s' h) fun _ t t' ht => (ends_ok ..).2 ht
    | detach => exact Ends.bind (detach allowed s s' h) fun _ t t' ht => (ends_ok ..).2 ht
    | tearDown => exact Ends.bind (tearDown allowed hc s s' h) fun _ t t' ht => (ends_ok ..).2 ht
    | remove | editorPrompt | savePrompt | restorePrompt | message | clearMessage | write
    | redisplay | newRow | replaceLine | insertText | movePoint =>
        exact (ends_ok ..).2 (edit h allowed rfl)
    | _ => exact absurd trivial common
  blanked := blanked

/-- A part keeps with the edit line blanked what it keeps without, if it is kept by blanking the
line and by putting it back. -/
theorem ends_suspended {body body' : Act σ Reply} {b : Bool}
    (inner : ∀ s s', R s s' → Ends R (GivenUp R b) (body.result s) (body'.result s'))
    (active : s'.editor.active = s.editor.active) (line : s'.editor.line = s.editor.line)
    (blank : R (s.onEditor (·.blank)) (s'.onEditor (·.blank)))
    (resume : ∀ {t t'}, R t t' →
      R (t.onEditor (·.resume s.editor.line)) (t'.onEditor (·.resume s.editor.line)))
    (h : R s s') :
    Ends R (GivenUp R b) ((suspended body).result s) ((suspended body').result s') := by
  simp only [suspended, result_get_bind]
  rw [active, line]
  split
  · simp only [result_modify_bind]
    exact (inner _ _ blank).ensuring (fun _ _ ht => resume ht)
      fun _ _ _ ht => ⟨resume ht.1, ht.2⟩
  · exact inner s s' h

/-- The same for a relation that keys keep. -/
theorem Closed.ofKeys (k : KeysKeep custom R R fun _ => R)
    (edit : ∀ {s s' op f}, R s s' → custom.uses op → op.edits? = some f →
      R (s.onEditor f) (s'.onEditor f))
    (quit : ∀ {s s'}, R s s' →
      R (s.onEditor fun e => ((e.insertText "quit".toList).redisplay).newRow)
        (s'.onEditor fun e => ((e.insertText "quit".toList).redisplay).newRow))
    (blank : ∀ {s s'}, custom.blanks → R s s' → R (s.onEditor (·.blank)) (s'.onEditor (·.blank)))
    (resume : ∀ {s s'} line, custom.blanks → R s s' →
      R (s.onEditor (·.resume line)) (s'.onEditor (·.resume line)))
    (attach : ∀ d, custom.uses (.attach d) → Lockstep R (Session.attach d) R fun _ => R)
    (detach : custom.uses .detach → Lockstep R Session.detach R fun _ => R)
    (tearDown : ∀ {call}, custom.uses .tearDown → Runs custom R call →
      Lockstep R (Session.tearDown call) R fun _ => R) : Closed custom R := by
  refine .ofFeed k.idle (fun hc text _ _ _ h => k.feed hc hc text.toList h) edit
    (fun _ h => quit h) ?_ attach detach tearDown
  intro body body' b allowed hb s s' h
  have active : s'.editor.active = s.editor.active := by
    simp only [Editor.active, (k.keyed h).installed, (k.keyed h).handling]
  exact ends_suspended hb active (k.keyed h).line (blank allowed h)
    (fun ht => resume _ allowed ht) h

end LineShell
