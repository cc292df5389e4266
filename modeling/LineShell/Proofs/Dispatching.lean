import LineShell.Proofs.CommandWord
import LineShell.Proofs.Echoes
import Mathlib.Logic.ExistsUnique

/-!
# Running a line

A line is spaces, a word, and then nothing, or a space and a rest. The first command that the word
names is run with the rest, once, and nothing else is. If it fails, one line tells so, and the shell
goes on as if it had come to its end.
-/

namespace LineShell

open Act Edit Session

variable {σ : Type} {s t : Session σ}

/-! ### How a line is written -/

namespace Command

/-- How a line is written: spaces, a word without any, and nothing, or one more space and a rest. -/
structure Writing where
  spaces : Nat
  word : List Char
  rest : Option (List Char)
  unspaced : ' ' ∉ word
  /-- Behind spaces alone no rest begins. -/
  bare : word = [] → rest = none

namespace Writing

def tail (w : Writing) : List Char :=
  w.rest.elim [] (' ' :: ·)

def text (w : Writing) : List Char :=
  List.replicate w.spaces ' ' ++ w.word ++ w.tail

def line (w : Writing) : String := String.ofList w.text

def name (w : Writing) : String := String.ofList w.word

/-- What a command is given: the rest without one space at its end. -/
def argument (w : Writing) : String :=
  String.ofList (dropLastSpace (w.rest.getD []))

variable (w : Writing)

theorem nameStart_text : nameStart w.text = w.spaces := by
  have solid : (w.word ++ w.tail).takeWhile (· = ' ') = [] := by
    cases word : w.word with
    | nil => simp [tail, w.bare word]
    | cons c rest =>
        have other : c ≠ ' ' := by
          rintro rfl
          exact w.unspaced (word ▸ List.mem_cons_self ..)
        simp [other]
  rw [nameStart, text, List.append_assoc, List.takeWhile_append_of_pos (by simp), solid]
  simp

theorem body_text : w.text.dropWhile (· = ' ') = w.word ++ w.tail := by
  rw [← drop_nameStart, nameStart_text, text, List.append_assoc]
  exact List.drop_left' (by simp)

theorem word_tail : (w.word ++ w.tail).takeWhile (· ≠ ' ') = w.word ∧
    (w.word ++ w.tail).dropWhile (· ≠ ' ') = w.tail := by
  have solid : ∀ c ∈ w.word, decide (c ≠ ' ') = true := fun c member => by
    simpa using ne_of_mem_of_not_mem member w.unspaced
  rw [List.takeWhile_append_of_pos solid, List.dropWhile_append_of_pos solid, tail]
  cases w.rest <;> simp

theorem ofLine?_line : Invocation.ofLine? w.line =
    if w.word = [] then none else some ⟨w.name, w.argument⟩ := by
  have rest : w.tail.drop 1 = w.rest.getD [] := by
    rw [tail]
    cases w.rest <;> rfl
  simp only [Invocation.ofLine?, line, String.toList_ofList, body_text, word_tail, rest]
  by_cases word : w.word = []
  · simp [word, tail, w.bare word]
  · simp [word, name, argument]

/-- A line is written in one way only. -/
theorem text_injective : Function.Injective text := by
  intro v w same
  have spaces : v.spaces = w.spaces := by rw [← v.nameStart_text, same, nameStart_text]
  have body : v.word ++ v.tail = w.word ++ w.tail := by rw [← v.body_text, same, body_text]
  have word : v.word = w.word := by rw [← v.word_tail.1, body, w.word_tail.1]
  have tail : v.tail = w.tail := by rw [← v.word_tail.2, body, w.word_tail.2]
  have rest : v.rest = w.rest := by
    unfold Writing.tail at tail
    cases left : v.rest <;> cases right : w.rest <;> simp_all
  cases v
  cases w
  simp_all

theorem exists_text (text : List Char) : ∃ w : Writing, w.text = text := by
  let body := text.dropWhile (· = ' ')
  have unspaced : ' ' ∉ body.takeWhile (· ≠ ' ') := fun member => by
    simpa using List.all_eq_true.mp List.all_takeWhile _ member
  have whole : text = List.replicate (nameStart text) ' ' ++ body := by
    rw [← takeWhile_eq_replicate, List.takeWhile_append_dropWhile]
  have parts : body.takeWhile (· ≠ ' ') ++ body.dropWhile (· ≠ ' ') = body :=
    List.takeWhile_append_dropWhile
  cases tail : body.dropWhile (· ≠ ' ') with
  | nil =>
      refine ⟨⟨nameStart text, body.takeWhile (· ≠ ' '), none, unspaced, fun _ => rfl⟩, ?_⟩
      rw [tail, List.append_nil] at parts
      simp only [Writing.text, Writing.tail, Option.elim_none, List.append_nil]
      rw [parts, ← whole]
  | cons c rest =>
      have space : c = ' ' := by
        have stop := List.head?_dropWhile_not (· ≠ ' ') body
        rw [tail] at stop
        simpa using stop
      -- The text behind the spaces does not begin with a space.
      have full : body.takeWhile (· ≠ ' ') ≠ [] := by
        intro empty
        have stop := List.head?_dropWhile_not (· = ' ') text
        rw [empty, List.nil_append, tail] at parts
        rw [show text.dropWhile (· = ' ') = body from rfl, ← parts] at stop
        simp [space] at stop
      refine ⟨⟨nameStart text, body.takeWhile (· ≠ ' '), some rest, unspaced,
        fun empty => absurd empty full⟩, ?_⟩
      have ending : ' ' :: rest = body.dropWhile (· ≠ ' ') := by rw [tail, space]
      simp only [Writing.text, Writing.tail, Option.elim_some, List.append_assoc]
      rw [ending, parts, ← whole]

end Writing

end Command

/-! ### What is printed -/

/-- A text has been printed, and nothing else has changed. A line that is being edited is blanked
and drawn again around the text. -/
def PrintedOnce (text : String) (s t : Session σ) : Prop :=
  ∃ shown hidden midRow,
    t = s.onEditor (fun e => { e with
      writes := shown ++ .output text e.phase :: (hidden ++ e.writes), midRow }) ∧
    ∀ w ∈ shown ++ hidden, ∀ other phase, w ≠ .output other phase

theorem printedOnce_printText {text : String} (nonempty : text ≠ "") :
    PrintedOnce text s (s.printText text) := by
  unfold printText
  cases active : s.editor.active with
  | true =>
      let drawn : Write := .redraw (text.toList.getLast? ≠ some '\n') s.editor.visiblePrompt
        s.editor.line s.editor.phase
      refine ⟨[drawn], [.clear], false, ?_, by simp [drawn]⟩
      simp only [onEditor, Editor.print_of_active active, Editor.write_of_ne nonempty]
      rfl
  | false =>
      refine ⟨[], [], text.toList.getLast? ≠ some '\n', ?_, by simp⟩
      simp only [onEditor, Editor.print_of_not_active active, Editor.write_of_ne nonempty]
      rfl

theorem printedOnce_printHighlighted (text : String) :
    PrintedOnce (s.highlighted text ++ "\n") s (s.printHighlighted text) :=
  printedOnce_printText (by simp [String.append_eq_empty_iff])

/-! ### What becomes of a line -/

namespace Session

def commands (s : Session σ) : List (Command.Entry (Program σ)) :=
  s.registry.menu.elim [] Command.Table.entries ++ s.registry.defaults.entries

theorem flatMap_tables (s : Session σ) : s.registry.tables.flatMap (·.entries) = s.commands := by
  rw [commands, Command.Registry.tables]
  cases s.registry.menu <;> simp

def announce (s : Session σ) (name : String) : Session σ :=
  s.log ⟨.debug, "Executing command", [("command", .text name)]⟩

def logFailure (s : Session σ) (name : String) (f : Failure) : Session σ :=
  s.log ⟨.error, "Command failed", [("command", .text name), ("error", .text f.message)]⟩

theorem announce_frame (s : Session σ) (name : String) :
    ∃ writes midRow errors, s.announce name =
      { s with editor := { s.editor with writes, midRow }, host := { s.host with errors } } :=
  s.log_frame _

theorem logFailure_frame (s : Session σ) (name : String) (f : Failure) :
    ∃ writes midRow errors, s.logFailure name f =
      { s with editor := { s.editor with writes, midRow }, host := { s.host with errors } } :=
  s.log_frame _

end Session

/-- What the end of a handler becomes: a failure is reported, and only the end of the program gets
through. -/
def contained (name : String) : Except Interrupt Reply × Session σ → Except Interrupt Unit × Session σ
  | (.ok _, t) => (.ok ⟨⟩, t)
  | (.error (.failure f), t) => (.ok ⟨⟩, t.commandFailed name f)
  | (.error (.exit code), t) => (.error (.exit code), t)

theorem result_runCommand (call : Program σ → Act σ Reply) (e : Command.Entry (Program σ))
    (i : Command.Invocation) (s : Session σ) : (runCommand call e i).result s =
      contained i.name ((call (e.handler i.argument)).result (s.announce i.name)) := by
  simp only [runCommand, result_modify_bind]
  rw [result_bind, result_outcome, ← announce]
  rcases (call (e.handler i.argument)).result (s.announce i.name) with ⟨(f | code) | _, t⟩ <;> rfl

theorem resolve?_eq_commands (name : String) :
    s.registry.resolve? name = s.commands.find? (·.name = name) := by
  rw [Command.Registry.resolve?_eq_find?, flatMap_tables]

variable {w : Command.Writing}

theorem result_dispatch_of_blank (call : Program σ → Act σ Reply) (blank : w.word = []) :
    (dispatch call w.line).result s = (.ok ⟨⟩, s) := by
  rw [dispatch, w.ofLine?_line, if_pos blank]
  rfl

theorem result_dispatch_of_unknown (call : Program σ → Act σ Reply) (word : w.word ≠ [])
    (unknown : s.commands.find? (·.name = w.name) = none) :
    (dispatch call w.line).result s = (.ok ⟨⟩, s.printHighlighted "Invalid command") := by
  simp only [dispatch, w.ofLine?_line, if_neg word, result_get_bind, resolve?_eq_commands, unknown]
  rfl

theorem result_dispatch_of_found (call : Program σ → Act σ Reply) (word : w.word ≠ [])
    {e : Command.Entry (Program σ)} (found : s.commands.find? (·.name = w.name) = some e) :
    (dispatch call w.line).result s =
      contained w.name ((call (e.handler w.argument)).result (s.announce w.name)) := by
  simp only [dispatch, w.ofLine?_line, if_neg word, result_get_bind, resolve?_eq_commands, found]
  exact result_runCommand ..

theorem goOnAlike_self (consumer : s.consumer = .commands) :
    GoOnAlike s.editor.writes s.editor.writes s s :=
  ⟨⟨rfl, rfl, [], [], rfl, rfl, rfl⟩, consumer⟩

/-- A report is printed once, behind what is logged. -/
theorem printedOnce_commandFailed (name : String) (f : Failure) :
    PrintedOnce (t.highlighted ("Command " ++ name ++ " failed: " ++ f.message) ++ "\n")
      (t.logFailure name f) (t.commandFailed name f) := by
  obtain ⟨_, _, _, logged⟩ := t.logFailure_frame name f
  have colours : (t.logFailure name f).colours = t.colours := by rw [logged]
  rw [highlighted, ← colours]
  exact printedOnce_printHighlighted _

/-- A report only adds to what has been written. -/
theorem goOnAlike_commandFailed (consumer : t.consumer = .commands) (name : String) (f : Failure) :
    GoOnAlike t.editor.writes (t.commandFailed name f).editor.writes t
      (t.commandFailed name f) := by
  obtain ⟨_, _, _, logged⟩ := t.logFailure_frame name f
  obtain ⟨_, _, _, printed, -⟩ := printedOnce_commandFailed (t := t) name f
  rw [printed, logged]
  exact ⟨⟨rfl, rfl, [], [], rfl, rfl, rfl⟩, consumer⟩

/-- Notes the program that is to be run, and runs nothing. -/
def noteRun (note : Program σ → σ → σ) (p : Program σ) : Act σ Reply := do
  modify fun s => { s with programs := note p s.programs }
  return .nothing

/-! ### The law -/

/-- The law of lines that are run in a state of a shell. -/
structure DispatchLaw (s : Session σ) : Prop where
  /-- Every line is written in one way. -/
  written : ∀ line, ∃! w : Command.Writing, w.line = line
  /-- Spaces alone do nothing. -/
  blank : ∀ (w : Command.Writing) call, w.word = [] →
    (dispatch call w.line).result s = (.ok ⟨⟩, s)
  /-- A word that names no command is answered by one line, and nothing is run. -/
  unknown : ∀ w : Command.Writing, w.word ≠ [] → (∀ e ∈ s.commands, e.name ≠ w.name) →
    ∃ t, PrintedOnce (s.highlighted "Invalid command" ++ "\n") s t ∧
      ∀ call, (dispatch call w.line).result s = (.ok ⟨⟩, t)
  /-- Of the commands that the word names the first one is run, once, and nothing else. -/
  run : ∀ (w : Command.Writing) e, w.word ≠ [] → s.commands.find? (·.name = w.name) = some e →
    ∀ call, (dispatch call w.line).result s =
      contained w.name ((call (e.handler w.argument)).result (s.announce w.name))
  noted : ∀ (w : Command.Writing) e, w.word ≠ [] → s.commands.find? (·.name = w.name) = some e →
    ∀ note : Program σ → σ → σ, ((dispatch (noteRun note) w.line).result s).2.programs =
      note (e.handler w.argument) s.programs
  /-- A failure becomes one line, behind what is logged. -/
  reported : ∀ name f (t : Session σ), ∃ u, contained name (.error (.failure f), t) = (.ok ⟨⟩, u) ∧
    PrintedOnce (t.highlighted ("Command " ++ name ++ " failed: " ++ f.message) ++ "\n")
      (t.logFailure name f) u
  /-- The next line then ends as if the command had returned, and writes the same. -/
  onward : s.consumer = .commands → ∀ name f depth p t,
    (Program.exec depth p).result (s.announce name) = (.error (.failure f), t) → ∀ u,
    contained name (.error (.failure f), t) = (.ok ⟨⟩, u) → ∀ depth line,
      Ends (GoOnAlike t.editor.writes u.editor.writes)
        (fun _ => GoOnAlike t.editor.writes u.editor.writes)
        ((dispatch (Program.exec depth) line).result t)
        ((dispatch (Program.exec depth) line).result u)
  /-- A command that is found under its name, one without spaces, is given what stands behind the
  name. -/
  given : ∀ e arg, s.registry.resolve? e.name = some e → e.name ≠ "" → ' ' ∉ e.name.toList →
    arg.toList.getLast? ≠ some ' ' → ∀ call, (dispatch call (e.name ++ " " ++ arg)).result s =
      contained e.name ((call (e.handler arg)).result (s.announce e.name))

theorem dispatchLaw (s : Session σ) : DispatchLaw s := by
  constructor
  case written =>
    intro line
    obtain ⟨w, text⟩ := Command.Writing.exists_text line.toList
    refine ⟨w, ?_, fun v same => ?_⟩
    · simp only [Command.Writing.line, text, String.ofList_toList]
    · refine Command.Writing.text_injective ?_
      rw [text, ← same, Command.Writing.line, String.toList_ofList]
  case blank => exact fun w call blank => result_dispatch_of_blank call blank
  case unknown =>
    intro w word unknown
    refine ⟨_, printedOnce_printHighlighted _, fun call => result_dispatch_of_unknown call word ?_⟩
    simpa using unknown
  case run => exact fun w e word found call => result_dispatch_of_found call word found
  case noted =>
    intro w e word found note
    obtain ⟨_, _, _, announced⟩ := s.announce_frame w.name
    rw [result_dispatch_of_found _ word found, announced]
    rfl
  case reported => exact fun name f t => ⟨_, rfl, printedOnce_commandFailed name f⟩
  case onward =>
    intro consumer name f depth p t failed u reported depth' line
    obtain rfl : t.commandFailed name f = u := congrArg Prod.snd reported
    obtain ⟨_, _, _, logged⟩ := s.announce_frame name
    have announced : (s.announce name).consumer = .commands := by rw [logged, consumer]
    have ended := closed_goOnAlike.exec depth true p p.follows_free _ _ (goOnAlike_self announced)
    rw [failed] at ended
    have after : t.consumer = .commands := ((ends_error ..).1 ended).1.2
    have runs : Runs freeRules (GoOnAlike (σ := σ) t.editor.writes
        (t.commandFailed name f).editor.writes) (Program.exec depth') :=
      closed_goOnAlike.exec depth'
    exact (closed_goOnAlike.dispatch runs line true (goOnAlike_commandFailed after name f)).weaken
      (fun _ _ h => h) fun _ _ _ h => h.1
  case given =>
    intro e arg found named solid last call
    have word : e.name.toList ≠ [] := by simpa using named
    let w : Command.Writing := ⟨0, e.name.toList, some arg.toList, solid, (absurd · word)⟩
    have line : w.line = e.name ++ " " ++ arg := by
      rw [← String.toList_inj]
      simp [w, Command.Writing.line, Command.Writing.text, Command.Writing.tail]
    have name : w.name = e.name := String.ofList_toList
    have argument : w.argument = arg := by
      simp [w, Command.Writing.argument, Command.dropLastSpace, last]
    rw [resolve?_eq_commands, ← name] at found
    rw [← line, result_dispatch_of_found call word found, name, argument]

end LineShell
