import LineShell.Proofs.Inputs
import LineShell.Proofs.Unbroken

/-!
# The edit line stays one row

No text that is fed brings a line feed or a carriage return into the line: characters that are
typed, sequences that fail, pastes, completions and entries of the history all keep it one row. So
every line that is handed on is one row, and the history that it enters stays as it has to be. The
programs that a shell runs do their part by handing it no other text, in what they are sure of about
their own state.
-/

namespace LineShell

open Act Edit Session

variable {σ : Type} {I : σ → Prop} {s t : Session σ} {call : Program σ → Act σ Reply}

/-! ### Programs that keep to one row -/

/-- The text that an operation hands to the shell for its line, its history or its commands is one
row. The operation that loads a history file is left out. -/
def Operation.InRow : Operation → Prop
  | replaceLine text | insertText text | addHistory text | line (some text) | dispatch text
  | release text => Unbroken text.toList
  | start _ => False
  | _ => True

def Reply.InRow : Reply → Prop
  | candidate (some text) => Unbroken text.toList
  | _ => True

/-- A program keeps to one row, as long as the state that programs share has a property, which it
keeps; the flag says that it offers completions. -/
inductive Program.InRow (I : σ → Prop) : Bool → Program σ → Prop
  | done {b : Bool} {reply : Reply} (offered : b = true → reply.InRow) : InRow I b (.done reply)
  | fail {b : Bool} (cause : Interrupt) : InRow I b (.fail cause)
  | consult {b : Bool} {next : σ → Program σ} (h : ∀ state, I state → InRow I b (next state)) :
      InRow I b (.consult next)
  | note {b : Bool} {change : σ → σ} {next : Program σ}
      (kept : ∀ state, I state → I (change state)) (h : InRow I b next) :
      InRow I b (.note change next)
  | inspect {b : Bool} {next : Settings → Bool → Program σ}
      (h : ∀ settings colours, InRow I b (next settings colours)) : InRow I b (.inspect next)
  | perform {b : Bool} {op : Operation} {next : Reply → Program σ} (allowed : op.InRow)
      (h : ∀ reply, InRow I b (next reply)) : InRow I b (.perform op next)
  | request {b : Bool} {label message : String}
      {callback : Option (String → Datum → Program σ)} {data : Datum} {next : Program σ}
      (called : ∀ f, callback = some f → ∀ answer data, Unbroken answer.toList →
        InRow I false (f answer data))
      (h : InRow I b next) : InRow I b (.request label message callback data next)
  | setMenu {b : Bool} {menu : Option (List (Command.Entry (Program σ)))}
      {next : Bool → Program σ}
      (names : ∀ entries, menu = some entries → ∀ e ∈ entries, Unbroken e.name.toList)
      (handlers : ∀ entries, menu = some entries → ∀ e ∈ entries, ∀ argument,
        Unbroken argument.toList → InRow I false (e.handler argument))
      (generators : ∀ entries, menu = some entries → ∀ e ∈ entries, ∀ g, e.generator = some g →
        ∀ text number, InRow I true (g text number))
      (hooks : ∀ entries, menu = some entries → ∀ e ∈ entries, ∀ f, e.displayHook = some f →
        ∀ word found longest, InRow I false (f word found longest))
      (h : ∀ taken, InRow I b (next taken)) : InRow I b (.setMenu menu next)
  | suspended {b : Bool} {body next : Program σ} (inner : InRow I false body)
      (h : InRow I b next) : InRow I b (.suspended body next)
  | attempt {b : Bool} {body : Program σ} {next : Except Interrupt Reply → Program σ}
      (inner : InRow I false body) (h : ∀ r, InRow I b (next r)) : InRow I b (.attempt body next)

/-- A command whose name is one row, and whose programs keep to one row. -/
structure Command.Entry.InRow (I : σ → Prop) (e : Command.Entry (Program σ)) : Prop where
  name : Unbroken e.name.toList
  handler : ∀ argument, Unbroken argument.toList → (e.handler argument).InRow I false
  generator : ∀ g, e.generator = some g → ∀ text number, (g text number).InRow I true
  hook : ∀ f, e.displayHook = some f → ∀ word found longest, (f word found longest).InRow I false

/-- All that may come to the line of a shell is one row, and its programs keep to that. A program
that takes lines down has to do so for lines that are one row only. -/
structure Session.InRow (I : σ → Prop) (s : Session σ) : Prop where
  editor : s.editor.OneRow
  commands : ∀ table ∈ s.registry.tables, ∀ e ∈ table.entries, e.InRow I
  consumer : ∀ handler, s.consumer = .program handler → (handler none).InRow I false ∧
    ∀ line, Unbroken line.toList → (handler (some line)).InRow I false
  request : ∀ r, s.request = some r → ∀ f, r.callback = some f → ∀ answer data,
    Unbroken answer.toList → (f answer data).InRow I false
  hook : ∀ engine, s.completion = some engine → ∀ f, engine.displayHook = some f →
    ∀ word found longest, (f word found longest).InRow I false
  programs : I s.programs

abbrev Act.StaysInRow {α : Type} (I : σ → Prop) (m : Act σ α) (s : Session σ) : Prop :=
  m.Leaves s (fun _ => Session.InRow I) fun _ => Session.InRow I

def RunsInRow (I : σ → Prop) (call : Program σ → Act σ Reply) : Prop :=
  ∀ b p, p.InRow I b → ∀ s : Session σ, s.InRow I →
    (call p).Leaves s (fun reply t => t.InRow I ∧ (b = true → reply.InRow)) fun _ => Session.InRow I

theorem RunsInRow.stays (hc : RunsInRow I call) {b : Bool} {p : Program σ} (hp : p.InRow I b)
    (h : s.InRow I) : (call p).StaysInRow I s :=
  (hc b p hp s h).weaken (fun _ _ ht => ht.1) fun _ _ ht => ht

namespace Session.InRow

theorem congr (h : s.InRow I) (editor : t.editor.OneRow) (registry : t.registry = s.registry)
    (consumer : t.consumer = s.consumer) (request : t.request = s.request)
    (completion : t.completion = s.completion) (programs : t.programs = s.programs) :
    t.InRow I where
  editor := editor
  commands := registry ▸ h.commands
  consumer := consumer ▸ h.consumer
  request := request ▸ h.request
  hook := completion ▸ h.hook
  programs := programs ▸ h.programs

theorem onEditor (h : s.InRow I) {f : Editor → Editor} (one : (f s.editor).OneRow) :
    (s.onEditor f).InRow I :=
  h.congr one rfl rfl rfl rfl rfl

/-- A change of the editor that leaves its texts alone. -/
theorem texts (h : s.InRow I) {f : Editor → Editor} (line : (f s.editor).line = s.editor.line)
    (draft : (f s.editor).draft = s.editor.draft)
    (history : (f s.editor).history = s.editor.history) : (s.onEditor f).InRow I :=
  h.onEditor ⟨line ▸ h.editor.line, draft ▸ h.editor.draft, history ▸ h.editor.history⟩

theorem foldl {α : Type} {f : Session σ → α → Session σ}
    (step : ∀ a {s : Session σ}, s.InRow I → (f s a).InRow I) (l : List α) (h : s.InRow I) :
    (l.foldl f s).InRow I := by
  induction l generalizing s with
  | nil => exact h
  | cons a l ih => exact ih (step a h)

theorem printText (h : s.InRow I) (text : String) : (s.printText text).InRow I :=
  h.onEditor (h.editor.print text)

theorem log (h : s.InRow I) (e : Log.Event) : (s.log e).InRow I := by
  obtain ⟨_, _, _, logged⟩ := s.log_frame e
  rw [logged]
  exact h.congr ⟨h.editor.line, h.editor.draft, h.editor.history⟩ rfl rfl rfl rfl rfl

theorem aside (h : s.InRow I) (same : s.Aside t) : t.InRow I := by
  obtain ⟨_, _, _, _, _, _, rfl⟩ := same
  exact h.congr ⟨h.editor.line, h.editor.draft, h.editor.history⟩ rfl rfl rfl rfl rfl

theorem quit (h : s.InRow I) : s.quit.InRow I := by
  obtain ⟨_, _, _, ended⟩ := s.quit_frame
  rw [ended]
  exact h.congr ⟨h.editor.line, h.editor.draft, h.editor.history⟩ rfl rfl rfl rfl rfl

theorem discardLine (h : s.InRow I) : s.discardLine.InRow I :=
  h.onEditor ⟨unbroken_nil, h.editor.draft, h.editor.history⟩

theorem receiveSignal (h : s.InRow I) (signal : Signal) : (s.receiveSignal signal).InRow I := by
  have ended : s.terminate.InRow I := by
    by_cases first : s.bridge.terminated = false
    · obtain ⟨_, _, _, ended⟩ := terminate_frame first
      rw [ended]
      exact h.congr ⟨unbroken_nil, h.editor.draft, h.editor.history⟩ rfl rfl rfl rfl rfl
    · rw [Bool.not_eq_false] at first
      rw [terminate, if_pos first]
      exact h
  cases signal with
  | interrupt =>
      rw [Session.receiveSignal]
      split
      · exact h.discardLine.texts rfl rfl rfl
      · exact ended
  | terminate => exact ended
  | hangUp => exact h

theorem printHighlighted (h : s.InRow I) (text : String) : (s.printHighlighted text).InRow I :=
  h.printText _

theorem printMenu (h : s.InRow I) : s.printMenu.InRow I :=
  foldl (fun _ _ hs => hs.printText _) _ ((h.printHighlighted _).printHighlighted _)

theorem commandFailed (h : s.InRow I) (name : String) (f : Failure) :
    (s.commandFailed name f).InRow I :=
  (h.log _).printHighlighted _

theorem setPrompt (h : s.InRow I) (prompt : String) : (s.setPrompt prompt).InRow I := by
  rw [Session.setPrompt]
  split
  · exact h.onEditor (h.editor.setPrompt prompt)
  · exact h

theorem requestInput (h : s.InRow I) (label message : String)
    {callback : Option (String → Datum → Program σ)} (data : Datum)
    (called : ∀ f, callback = some f → ∀ answer data, Unbroken answer.toList →
      (f answer data).InRow I false) :
    (s.requestInput label message callback data).InRow I := by
  rw [Session.requestInput]
  split
  · have refused : (s.record (.refused ⟨callback, data⟩)).InRow I :=
      h.congr h.editor rfl rfl rfl rfl rfl
    exact refused.log _
  · have saved : s.editor.savePrompt.OneRow := ⟨h.editor.line, h.editor.draft, h.editor.history⟩
    refine ⟨saved.showMessage _, h.commands, h.consumer, ?_, h.hook, h.programs⟩
    rintro _ ⟨⟩ f hf answer data clean
    exact called f hf answer data clean

end Session.InRow

/-! ### Lines -/

namespace RunsInRow

theorem remember {line : String} (h : s.InRow I) (clean : Unbroken line.toList) :
    (Session.remember line).StaysInRow I s := by
  have added := (s.editor.history.fst_add s.host.store s.host.entryTime line).2
  have entries := History.unbroken_remember h.editor.history clean
  simp only [Session.remember, leaves_get_bind]
  rcases hadd : s.editor.history.add s.host.store s.host.entryTime line with
    ⟨kept, history, store, fault⟩
  rw [hadd] at added
  simp only at added
  subst added
  have noted : ({ s.onEditor fun e => { e with history := s.editor.history.remember line } with
      host := { s.host with store } } : Session σ).InRow I :=
    h.congr ⟨h.editor.line, h.editor.draft, entries⟩ rfl rfl rfl rfl rfl
  simp only [leaves_modify_bind]
  split
  · exact noted
  · exact noted
  · exact noted.log _

theorem release (hc : RunsInRow I call) {answer : String} (clean : Unbroken answer.toList)
    (h : s.InRow I) : (Session.release call answer).StaysInRow I s := by
  simp only [Session.release, leaves_get_bind]
  split
  · exact h
  · rename_i r waiting
    have answered : (s.answered r answer).InRow I :=
      ⟨h.editor.restorePrompt, h.commands, h.consumer, fun _ hr => (nomatch hr), h.hook,
        h.programs⟩
    simp only [leaves_modify_bind]
    split
    · rename_i f called
      have held := h.request r waiting f called answer r.data clean
      exact (hc.stays held answered).bind fun _ _ ht => ht
    · exact answered

theorem runCommand (hc : RunsInRow I call) {e : Command.Entry (Program σ)} (he : e.InRow I)
    {i : Command.Invocation} (clean : Unbroken i.argument.toList) (h : s.InRow I) :
    (Session.runCommand call e i).StaysInRow I s := by
  simp only [Session.runCommand, leaves_modify_bind]
  refine (hc.stays (he.handler _ clean) (h.log _)).outcome_bind (fun _ _ ht => ht) ?_
  rintro (f | code) t ht
  · exact ht.commandFailed _ _
  · exact ht

/-- The argument of a command is part of the line. -/
theorem unbroken_argument {line : String} {i : Command.Invocation}
    (invoked : Command.Invocation.ofLine? line = some i) (clean : Unbroken line.toList) :
    Unbroken i.argument.toList := by
  simp only [Command.Invocation.ofLine?] at invoked
  split at invoked
  · cases invoked
  · cases invoked
    have dropped : ∀ s, Unbroken s → Unbroken (Command.dropLastSpace s) := by
      intro s hs
      rw [Command.dropLastSpace]
      split
      · exact hs.mono fun _ hc => s.dropLast_subset hc
      · exact hs
    have body : Unbroken (line.toList.dropWhile (· = ' ')) :=
      clean.mono fun _ hc => (List.dropWhile_sublist _).subset hc
    have rest : Unbroken ((line.toList.dropWhile (· = ' ')).dropWhile (· ≠ ' ')) :=
      body.mono fun _ hc => (List.dropWhile_sublist _).subset hc
    rw [String.toList_ofList]
    exact dropped _ (rest.drop 1)

theorem dispatch (hc : RunsInRow I call) {line : String} (clean : Unbroken line.toList)
    (h : s.InRow I) : (Session.dispatch call line).StaysInRow I s := by
  rw [Session.dispatch]
  split
  · exact h
  · rename_i i invoked
    simp only [leaves_get_bind]
    split
    · exact h.printHighlighted _
    · rename_i e resolved
      obtain ⟨table, ht, he⟩ := Command.Registry.mem_of_resolve? resolved
      exact hc.runCommand (h.commands table ht e he) (unbroken_argument invoked clean) h

theorem completeLine (hc : RunsInRow I call) {line : Option String}
    (clean : ∀ text, line = some text → Unbroken text.toList) (h : s.InRow I) :
    (Session.completeLine call line).StaysInRow I s := by
  cases line with
  | none =>
      have typed : Unbroken (s.editor.line.insert "quit".toList).text :=
        Line.unbroken_insert h.editor.line (by decide)
      have shown : (s.onEditor fun e =>
          ((e.insertText "quit".toList).redisplay).newRow).InRow I :=
        h.onEditor ⟨typed, h.editor.draft, h.editor.history⟩
      exact shown.quit
  | some text =>
      have clean := clean text rfl
      simp only [Session.completeLine]
      split
      · exact h
      · refine (hc.release clean h).bind fun answered t ht => ?_
        split
        · exact ht
        · exact (remember ht clean).bind fun _ u hu => hc.dispatch clean hu

theorem consume (hc : RunsInRow I call) {line : Option String}
    (clean : ∀ text, line = some text → Unbroken text.toList) (h : s.InRow I) :
    (Session.consume call line).StaysInRow I s := by
  simp only [Session.consume, leaves_get_bind]
  split
  · exact hc.completeLine clean h
  · rename_i handler consumes
    have held : (handler line).InRow I false := by
      cases line with
      | none => exact (h.consumer handler consumes).1
      | some text => exact (h.consumer handler consumes).2 text (clean text rfl)
    exact (hc.stays held h).bind fun _ _ ht => ht

/-! ### Keys -/

theorem leaveLine (h : s.InRow I) : s.leaveLine.InRow I :=
  h.texts rfl rfl rfl

theorem acceptLine (hc : RunsInRow I call) (h : s.InRow I) :
    (Session.acceptLine call).StaysInRow I s := by
  have ended := h.editor.endRow
  have begun : s.beginLine.InRow I := h.onEditor ⟨unbroken_nil, ended.draft, ended.history⟩
  have clean : Unbroken s.editor.line.toString.toList := by
    rw [Line.toString, String.toList_ofList]
    exact h.editor.line
  simp only [Session.acceptLine, leaves_get_bind, leaves_modify_bind]
  refine Leaves.bind ((hc.consume (fun _ same => Option.some.inj same ▸ clean) begun).ensuring
    (fun _ _ ht => leaveLine ht) fun _ _ ht => leaveLine ht) fun _ t ht => ?_
  exact ht.onEditor ht.editor.redisplayIfInstalled

theorem endOfInput (hc : RunsInRow I call) (h : s.InRow I) :
    (Session.endOfInput call).StaysInRow I s := by
  have begun : (s.onEditor fun e => { e with handling := true }).InRow I :=
    h.texts rfl rfl rfl
  simp only [Session.endOfInput, leaves_modify_bind]
  refine Leaves.bind ((hc.consume (by rintro _ ⟨⟩) begun).ensuring
    (fun _ _ ht => leaveLine ht) fun _ _ ht => leaveLine ht) fun _ t ht => ?_
  exact ht.onEditor ⟨unbroken_nil, ht.editor.draft, ht.editor.history⟩

theorem engine (h : s.InRow I)
    (change : Completion.Engine (Program σ) → Completion.Engine (Program σ))
    (hook : ∀ engine f, (change engine).displayHook = some f → engine.displayHook = some f ∨
      ∀ word found longest, (f word found longest).InRow I false) :
    ({ s with completion := s.completion.map change } : Session σ).InRow I :=
  ⟨h.editor, h.commands, h.consumer, h.request, Completion.hook_of_map h.hook hook, h.programs⟩

theorem completes (hc : RunsInRow I call) :
    Completes call (Session.InRow I) (fun c => Unbroken c.toList) fun _ => Session.InRow I where
  log event h := h.log event
  attempt nothing h := engine h (fun e => { e with attemptOver := nothing }) fun _ _ hf => .inl hf
  unhook h := engine h (fun e => { e with displayHook := none }) fun _ _ hf => nomatch hf
  hook h resolved := by
    obtain ⟨table, ht, he, -⟩ := Command.Registry.mem_of_resolveGenerator? resolved
    exact engine h (fun e => { e with displayHook := _ }) fun _ f hf =>
      .inr ((h.commands table ht _ he).hook f hf)
  names text h name member := by
    obtain ⟨among, -⟩ := List.mem_filter.1 member
    obtain ⟨table, ht, named⟩ := List.mem_flatMap.1 among
    obtain ⟨e, he, rfl⟩ := List.mem_map.1 named
    exact (h.commands table (List.mem_reverse.1 ht) e he).name
  generates h resolved text number t ht := by
    obtain ⟨table, hm, he, hg⟩ := Command.Registry.mem_of_resolveGenerator? resolved
    have offers := (h.commands table hm _ he).generator _ hg text number
    refine (hc true _ offers t ht).weaken (fun reply u hu => ⟨hu.1, ?_⟩) fun _ _ hu => hu
    rintro found rfl
    exact hu.2 rfl
  shows h he hf word found longest := hc.stays (h.hook _ he _ hf word found longest) h
  list _ h := h.texts rfl rfl rfl
  draw h := h.texts rfl rfl rfl
  replace n only clean h := by
    have space : Unbroken [' '] := by decide
    have line := Line.unbroken_insert (Line.unbroken_deleteBefore h.editor.line n)
      (unbroken_append.2 ⟨clean, space⟩)
    exact h.onEditor ⟨line, h.editor.draft, h.editor.history⟩
  extend before n found clean h := by
    have texts : ∀ text ∈ found.map String.toList, Unbroken text := by
      intro text member
      obtain ⟨c, hc, rfl⟩ := List.mem_map.1 member
      exact clean c hc
    have line := Line.unbroken_insert h.editor.line (Unbroken.commonSuffix texts before n)
    exact h.onEditor ⟨line, h.editor.draft, h.editor.history⟩

theorem recallOlder (h : s.InRow I) : (Session.recallOlder : Act σ Unit).StaysInRow I s := by
  have moved := h.editor.recallOlder
  simp only [Session.recallOlder, leaves_get_bind]
  rcases step : s.editor.recallOlder with ⟨e, missing⟩
  rw [step] at moved
  have noted : (s.onEditor fun _ => e).InRow I := h.onEditor moved
  simp only [leaves_modify_bind]
  cases missing with
  | true => exact noted
  | false => exact noted.texts rfl rfl rfl

/-- A key that does not type a break keeps to one row, whatever it makes the shell do. -/
theorem pressKey (hc : RunsInRow I call) {k : Key} (keeps : k.Keeps) (h : s.InRow I) :
    (Session.pressKey call k).StaysInRow I s := by
  have noted : ∀ b, (s.onEditor fun e => { e with afterReturn := b }).InRow I := fun b =>
    h.texts rfl rfl rfl
  refine leaves_pressKey (fun _ => h) (fun _ _ => noted false)
    (fun _ _ _ => hc.endOfInput (noted false)) (fun line edited b => ?_) fun _ _ => ?_
  · exact h.onEditor
      ⟨Editor.unbroken_edit? h.editor.line keeps edited, h.editor.draft, h.editor.history⟩
  · cases k with
    | carriageReturn | lineFeed => exact hc.acceptLine (noted _)
    | tab => exact (completes hc).completeKey (noted _)
    | older => exact recallOlder (noted _)
    | newer =>
        have moved := (noted (Key.newer = .carriageReturn)).editor.recallNewer
        exact (noted _).onEditor ⟨moved.line, moved.draft, moved.history⟩
    | other name => exact (noted _).log _
    | _ => exact noted _

theorem strikes (hc : RunsInRow I call) :
    Strikes call (fun (_ : Unit) => Session.InRow I) (fun _ _ => ()) (fun x => x.2.Keeps)
      fun _ => Session.InRow I where
  decode _ h := h.texts rfl rfl rfl
  press h keeps := hc.pressKey keeps h
  broken h := h.texts rfl rfl rfl

theorem feed (hc : RunsInRow I call) (text : List Char) (h : s.InRow I) :
    (Session.feed call text).StaysInRow I s := by
  have free : s.Free (fun _ => Session.InRow I) (fun _ => Session.InRow I) () :=
    ⟨h, .inr fun _ _ _ ht => ht⟩
  have pressed : ∀ x ∈ textStrokes call s text, x.2.Keeps := by
    intro x hx
    have alone : x ∈ strokes call s [text] := List.mem_append_left _ hx
    exact keeps_of_mem_strokes alone
  exact (hc.strikes.feed text free pressed).leaves.weaken (fun _ _ ht => ht.1) fun _ _ ht => ht

/-! ### Operations and programs -/

theorem ofAside {α : Type} {m : Act σ α} (h : s.InRow I) (same : s.Aside (m.result s).2) :
    m.StaysInRow I s := by
  have left := h.aside same
  rcases run : m.result s with ⟨_ | _, t⟩
  · rw [run] at left
    rwa [Act.StaysInRow, Leaves, run]
  · rw [run] at left
    rwa [Act.StaysInRow, Leaves, run]

theorem tearDown (hc : RunsInRow I call) (h : s.InRow I) :
    (Session.tearDown call).StaysInRow I s := by
  have logged : ∀ (es : List Log.Event) {u : Session σ}, u.InRow I → (u.logAll es).InRow I :=
    fun es _ hu => InRow.foldl (fun e _ hv => hv.log e) es hu
  have reported : ∀ (lines : List String) {u : Session σ}, u.InRow I →
      (lines.foldl reportLine u).InRow I :=
    fun lines _ hu => InRow.foldl (f := reportLine)
      (fun _ _ hv => hv.congr hv.editor rfl rfl rfl rfl rfl) lines hu
  simp only [Session.tearDown, leaves_get_bind]
  split
  · exact h
  · simp only [leaves_modify_bind]
    have begun : ({ s with tornDown := true } : Session σ).InRow I :=
      h.congr h.editor rfl rfl rfl rfl rfl
    refine (hc.release (by decide) begun).bind fun _ t ht => ?_
    refine (ofAside ht (aside_detach t)).bind fun _ u hu => ?_
    simp only [leaves_get_bind]
    refine Leaves.bind (Q := fun _ => Session.InRow I) ?_ fun _ v hv => ?_
    · have gone : ({ u with bridge := u.bridge.uninstall.bridge } : Session σ).InRow I :=
        hu.congr hu.editor rfl rfl rfl rfl rfl
      simp only [adoptBridge, leaves_modify_bind]
      split
      · exact logged _ (reported _ gone)
      · exact logged _ (reported _ gone)
    · have closed := hv.editor.showMessage ""
      have left : v.leaveScreen.InRow I :=
        hv.congr ⟨closed.line, closed.draft, closed.history⟩ rfl rfl rfl rfl rfl
      simp only [closeDown, leaves_modify_bind, leaves_get_bind]
      refine Leaves.bind (Q := fun _ => Session.InRow I) ?_ fun _ w hw => ?_
      · unfold checkLevel
        split <;> exact left
      · exact hw.congr hw.editor rfl rfl rfl rfl rfl

theorem setMenu (menu : Option (List (Command.Entry (Program σ))))
    (commands : ∀ entries, menu = some entries → ∀ e ∈ entries, e.InRow I) (h : s.InRow I) :
    (Session.setMenu menu).StaysInRow I s := by
  have offered : ∀ table : Option (Command.Table (Program σ)),
      (∀ t, table = some t → ∀ e ∈ t.entries, e.InRow I) →
        (Session.offerMenu table).StaysInRow I s := by
    intro table kept
    simp only [Session.offerMenu, leaves_get_bind]
    have tables : ∀ t ∈ (s.registry.setMenu table).2.tables, ∀ e ∈ t.entries, e.InRow I := by
      intro t ht
      rcases Command.Registry.tables_setMenu ht with ht | ht
      · exact h.commands t ht
      · exact kept t ht
    rcases set : s.registry.setMenu table with ⟨taken, registry⟩
    rw [set] at tables
    cases taken with
    | true => exact ⟨h.editor, tables, h.consumer, h.request, h.hook, h.programs⟩
    | false => exact h.log _
  simp only [Session.setMenu, menuTable]
  cases menu with
  | none => exact offered none fun _ ht => nomatch ht
  | some entries =>
      cases made : Command.Table.ofList entries with
      | ok table =>
          simp only [made]
          refine offered (some table) fun t ht e he => commands entries rfl e ?_
          cases ht
          exact Command.Table.entries_ofList made ▸ he
      | error fault =>
          simp only [made]
          exact h

theorem perform (hc : RunsInRow I call) {op : Operation} (allowed : op.InRow) (h : s.InRow I) :
    (Session.perform call op).StaysInRow I s := by
  have line := h.editor.line
  have same : ∀ {f : Editor → Editor}, (f s.editor).OneRow → (editing f).StaysInRow I s :=
    fun one => h.onEditor one
  cases op with
  | feed text => exact (hc.feed _ h).bind fun _ _ ht => ht
  | install | remove | savePrompt | clearMessage | redisplay | newRow | movePoint =>
      exact same ⟨line, h.editor.draft, h.editor.history⟩
  | editorPrompt prompt => exact same (h.editor.setPrompt prompt)
  | restorePrompt => exact same h.editor.restorePrompt
  | message text => exact same (h.editor.showMessage text)
  | write text => exact same (h.editor.write text)
  | replaceLine text => exact same (h.editor.replaceLine allowed)
  | insertText text => exact same (h.editor.withLine (Line.unbroken_insert line allowed))
  | addHistory text => exact (remember h allowed).bind fun _ _ ht => ht
  | line text =>
      have clean : ∀ t, text = some t → Unbroken t.toList := by
        rintro t rfl
        exact allowed
      exact (hc.completeLine clean h).bind fun _ _ ht => ht
  | dispatch text => exact (hc.dispatch allowed h).bind fun _ _ ht => ht
  | print template args =>
      refine Leaves.bind (Q := fun _ => Session.InRow I) ?_ fun _ _ ht => ht
      rw [Session.print]
      split
      · exact h.printText _
      · split
        · exact h.printText _
        · exact h
  | dump bytes => exact InRow.foldl (fun _ _ ht => ht.printText _) _ h
  | printMenu => exact h.printMenu
  | quit => exact h.quit
  | hangUp => exact (h.log _).quit
  | setPrompt prompt => exact h.setPrompt prompt
  | release text => exact (hc.release allowed h).bind fun _ _ ht => ht
  | start argv => exact allowed.elim
  | attach descriptor => exact (ofAside h (aside_attach descriptor s)).bind fun _ _ ht => ht
  | detach => exact (ofAside h (aside_detach s)).bind fun _ _ ht => ht
  | signal signal => exact h.receiveSignal signal
  | log event => exact h.log event
  | tearDown => exact (hc.tearDown h).bind fun _ _ ht => ht

theorem suspended {body : Act σ Reply}
    (stays : ∀ t : Session σ, t.InRow I → body.StaysInRow I t) (h : s.InRow I) :
    (Session.suspended body).StaysInRow I s := by
  simp only [Session.suspended, leaves_get_bind]
  split
  · simp only [leaves_modify_bind]
    have resumed : ∀ t : Session σ, t.InRow I →
        (t.onEditor (·.resume s.editor.line)).InRow I := fun t ht =>
      ht.onEditor ⟨h.editor.line, ht.editor.draft, ht.editor.history⟩
    exact (stays _ (h.onEditor h.editor.blank)).ensuring (fun _ t ht => resumed t ht)
      fun _ t ht => resumed t ht
  · exact stays s h

theorem run (hc : RunsInRow I call) : RunsInRow I fun p => p.run call := by
  intro b p hp
  induction hp with
  | done offered => exact fun s h => ⟨h, offered⟩
  | fail cause => exact fun s h => h
  | consult _ ih => exact fun s h => ih s.programs h.programs s h
  | note kept _ ih =>
      intro s h
      exact ih _ ⟨h.editor, h.commands, h.consumer, h.request, h.hook, kept _ h.programs⟩
  | inspect _ ih => exact fun s h => ih s.settings s.colours s h
  | perform allowed _ ih =>
      exact fun s h => (hc.perform allowed h).bind fun reply t ht => ih reply t ht
  | request called _ _ ih => exact fun s h => ih _ (h.requestInput _ _ _ called)
  | setMenu names handlers generators hooks _ _ _ _ ih =>
      intro s h
      refine (setMenu _ (fun entries hm e he => ?_) h).bind fun taken t ht => ih taken t ht
      exact ⟨names entries hm e he, handlers entries hm e he, generators entries hm e he,
        hooks entries hm e he⟩
  | suspended _ _ inner ih =>
      intro s h
      refine (suspended (fun t ht => ?_) h).bind fun _ t ht => ih t ht
      exact (inner t ht).weaken (fun _ _ hu => hu.1) fun _ _ hu => hu
  | attempt _ _ inner ih =>
      intro s h
      exact (inner s h).outcome_bind (fun _ t ht => ih _ t ht.1) fun _ t ht => ih _ t ht

theorem exec (depth : Nat) : RunsInRow I (Program.exec depth) := by
  induction depth with
  | zero => exact fun b p _ s h => h
  | succ depth ih => exact ih.run

end RunsInRow

/-! ### The law of the row -/

/-- A text that is fed in pieces to a shell that keeps to one row. -/
structure RowLaw (call : Program σ → Act σ Reply) (I : σ → Prop) (s : Session σ)
    (pieces : List (List Char)) : Prop where
  /-- Every key finds one row in the line, and one row in all that may come to it. -/
  found : ∀ x ∈ strokes call s pieces, x.1.InRow I ∧ Unbroken x.1.editor.line.text ∧
    x.1.editor.line.point ≤ x.1.editor.line.text.length
  /-- A key that ends the line hands on what stands in it, which is one row. -/
  handed : ∀ x ∈ strokes call s pieces, x.1.editor.installed = true → x.EndsLine →
    (pressKey call x.2).result x.1 =
        (acceptLine call).result
          (x.1.onEditor fun e => { e with afterReturn := x.2 = .carriageReturn }) ∧
      Unbroken x.1.editor.line.toString.toList
  /-- The same holds behind the text, or where it was given up: of the line, and of the history with
  all lines that have entered it. -/
  left : (pieces.forM (feed call)).Leaves s
    (fun _ t => t.InRow I ∧ Unbroken t.editor.line.text ∧
      ∀ entry ∈ t.editor.history.entries, Unbroken entry.toList)
    fun _ t => t.InRow I ∧ Unbroken t.editor.line.text ∧
      ∀ entry ∈ t.editor.history.entries, Unbroken entry.toList

/-- Whatever is typed, pasted, completed or recalled, the line stays one row, and so do the lines
that are handed on and the history that they enter. -/
theorem rowLaw (h : s.InRow I) (depth : Nat) (pieces : List (List Char)) :
    RowLaw (Program.exec depth) I s pieces := by
  have hc : RunsInRow I (Program.exec depth) := .exec depth
  have free : s.Free (fun _ => Session.InRow I) (fun _ => Session.InRow I) () :=
    ⟨h, .inr fun _ _ _ ht => ht⟩
  have carried := hc.strikes.pieces pieces free fun x hx => keeps_of_mem_strokes hx
  have found : ∀ x ∈ strokes (Program.exec depth) s pieces, x.1.InRow I := by
    intro x hx
    obtain ⟨-, here⟩ := carried.along.mem hx
    exact here
  refine ⟨fun x hx => ?_, fun x hx installed ends => ?_, ?_⟩
  · exact ⟨found x hx, (found x hx).editor.line, x.1.editor.line.point_le⟩
  · refine ⟨result_pressKey_ending _ installed ends, ?_⟩
    rw [Line.toString, String.toList_ofList]
    exact (found x hx).editor.line
  · have whole : ∀ t : Session σ, t.InRow I → t.InRow I ∧ Unbroken t.editor.line.text ∧
        ∀ entry ∈ t.editor.history.entries, Unbroken entry.toList :=
      fun t ht => ⟨ht, ht.editor.line, ht.editor.history⟩
    exact carried.leaves.weaken (fun _ t ht => whole t ht.1) fun _ t ht => whole t ht

theorem inRow_defaultCommands {e : Command.Entry (Program σ)} (he : e ∈ defaultCommands) :
    e.InRow I := by
  have single : ∀ op : Operation, op.InRow → (Program.single op).InRow I false :=
    fun op allowed => .perform allowed fun reply => .done fun same => nomatch same
  have names : ∀ name ∈ ["version", "quit", "exit", "help"], Unbroken name.toList := by decide
  simp only [defaultCommands, List.mem_cons, List.not_mem_nil, or_false] at he
  rcases he with rfl | rfl | rfl | rfl
  all_goals
    refine ⟨names _ (by simp), fun _ _ => single _ trivial, ?_, ?_⟩
    · intro g hg
      cases hg
    · intro f hf
      cases hf

/-- An entry of the history is edited and handed on; then something of two rows is pasted behind the
beginning of a sequence that fails. -/
def rowPieces : List (List Char) :=
  [['\x1b', '['], ['A', '!', '\r'], ['\n', '\x1b', 'x'], pasteOf ['y', '\r', '\n', 'z'] ++ ['\r']]

theorem rows_of_rowPieces :
    let s := (bareShell [] []).installNew notebook { entries := ["old"] } true ""
    RowLaw (Program.exec 1) (fun lines => ∀ line ∈ lines, Unbroken line.toList) s rowPieces ∧
      ((rowPieces.forM (feed (Program.exec 1))).result s).2.programs = ["old!", "xy z"] := by
  have inRow : ((bareShell [] []).installNew notebook { entries := ["old"] } true "").InRow
      fun lines => ∀ line ∈ lines, Unbroken line.toList := by
    refine ⟨⟨by decide, by decide, by decide⟩, ?commands, ?consumer, fun _ hr => (nomatch hr),
      ?hook, fun _ hl => nomatch hl⟩
    case commands =>
      intro table ht e he
      rcases Command.Registry.mem_tables.1 ht with hm | rfl
      · cases hm
        cases he
      · exact inRow_defaultCommands he
    case consumer =>
      rintro handler ⟨⟩
      refine ⟨.note (fun _ h => by simpa using h) (.done fun same => nomatch same),
        fun line clean => .note (fun lines h => ?_) (.done fun same => nomatch same)⟩
      simpa [or_imp, forall_and] using ⟨h, clean⟩
    case hook => rintro engine ⟨⟩ f ⟨⟩
  exact ⟨rowLaw inRow 1 rowPieces, by decide +kernel⟩

end LineShell
