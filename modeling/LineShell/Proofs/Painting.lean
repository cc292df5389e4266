import LineShell.Demo
import LineShell.Proofs.TintedKeys

/-!
# Colours only add colour codes

A program may look at whether colours are in use, and should only paint by it. Where all programs of
a shell keep to that, two shells that differ in nothing but colours show the same without colour
codes, step by step, and agree in all the rest.
-/

namespace LineShell

open Act Edit Session Colour

variable {σ : Type} {P : Settings → Prop} {s s' : Session σ}

/-! ### Programs that differ in their colours -/

def Operation.Prints (template : String) (args : List Datum) (text : String) : Prop :=
  if args.isEmpty then text = template else Text.Template.fill template args = .ok text

/-- Two operations differ in nothing but the colours of a text. They may start the shell, which puts
any settings into force, only if nothing is known of the settings. -/
inductive Operation.Twins (P : Settings → Prop) : Operation → Operation → Prop
  | same {op : Operation} (kept : ∀ argv, op = .start argv → ∀ o, P o) : Twins P op op
  | print {template template' : String} {args args' : List Datum} {text text' : String}
      (filled : Prints template args text) (filled' : Prints template' args' text')
      (twins : Colour.Twins (fun _ => True) text text') :
      Twins P (.print template args) (.print template' args')
  | write {text text' : String} (twins : Colour.Twins (fun _ => True) text text') :
      Twins P (.write text) (.write text')
  | message {text text' : String} (same : unpaint text' = unpaint text) :
      Twins P (.message text) (.message text')
  | editorPrompt {prompt prompt' : String} (same : unpaint prompt' = unpaint prompt) :
      Twins P (.editorPrompt prompt) (.editorPrompt prompt')
  | setPrompt {prompt prompt' : String} (same : unpaint prompt' = unpaint prompt) :
      Twins P (.setPrompt prompt) (.setPrompt prompt')

/-- Two programs differ in nothing but how they paint. If they find settings of which no more than
colours differs, they go on as such programs whatever colours they find. The programs that they hand
on are the same, and each of them is its own twin. -/
inductive Program.Twins (P : Settings → Prop) : Program σ → Program σ → Prop
  | done (reply : Reply) : Twins P (.done reply) (.done reply)
  | fail (cause : Interrupt) : Twins P (.fail cause) (.fail cause)
  | consult {next next' : σ → Program σ} (h : ∀ state, Twins P (next state) (next' state)) :
      Twins P (.consult next) (.consult next')
  | note {change : σ → σ} {next next' : Program σ} (h : Twins P next next') :
      Twins P (.note change next) (.note change next')
  | inspect {next next' : Settings → Bool → Program σ}
      (h : ∀ o o' : Settings, o'.colourless = o.colourless → P o →
        ∀ colours colours', Twins P (next o colours) (next' o' colours')) :
      Twins P (.inspect next) (.inspect next')
  | perform {op op' : Operation} {next next' : Reply → Program σ} (twins : op.Twins P op')
      (h : ∀ reply, Twins P (next reply) (next' reply)) :
      Twins P (.perform op next) (.perform op' next')
  | request {label message : String} {callback : Option (String → Datum → Program σ)}
      {data : Datum} {next next' : Program σ}
      (called : ∀ f, callback = some f → ∀ answer data, Twins P (f answer data) (f answer data))
      (h : Twins P next next') :
      Twins P (.request label message callback data next)
        (.request label message callback data next')
  | setMenu {menu : Option (List (Command.Entry (Program σ)))} {next next' : Bool → Program σ}
      (handlers : ∀ entries, menu = some entries → ∀ e ∈ entries, ∀ argument,
        Twins P (e.handler argument) (e.handler argument))
      (generators : ∀ entries, menu = some entries → ∀ e ∈ entries, ∀ g, e.generator = some g →
        ∀ text number, Twins P (g text number) (g text number))
      (hooks : ∀ entries, menu = some entries → ∀ e ∈ entries, ∀ f, e.displayHook = some f →
        ∀ word found longest, Twins P (f word found longest) (f word found longest))
      (h : ∀ taken, Twins P (next taken) (next' taken)) :
      Twins P (.setMenu menu next) (.setMenu menu next')
  | suspended {body body' next next' : Program σ} (inner : Twins P body body')
      (h : Twins P next next') : Twins P (.suspended body next) (.suspended body' next')
  | attempt {body body' : Program σ} {next next' : Except Interrupt Reply → Program σ}
      (inner : Twins P body body') (h : ∀ r, Twins P (next r) (next' r)) :
      Twins P (.attempt body next) (.attempt body' next')

/-- A program goes by colours in nothing but how it paints, given what is known of the settings. -/
def Program.PaintsOnly (P : Settings → Prop) (p : Program σ) : Prop := p.Twins P p

/-- Programs go by colours in nothing but how they paint. -/
def paintCustom (P : Settings → Prop) : Custom σ where
  uses op := ∀ argv, op = .start argv → ∀ o, P o
  blanks := True
  callbacksGiveUp := true
  inspects := False
  held b p := b = true ∧ p.PaintsOnly P

/-- Two sessions differ in nothing but colours, and their programs only paint by them. -/
abbrev Painted (P : Settings → Prop) : Link σ := Tint (paintCustom P) P

theorem closed_painted : Closed (σ := σ) (paintCustom P) (Painted P) :=
  Tint.closed (Tint.stable id fun argv kept => kept argv rfl)

theorem result_print {template text : String} {args : List Datum}
    (filled : Operation.Prints template args text) (s : Session σ) :
    (Session.print template args).result s = (.ok ⟨⟩, s.printText text) := by
  unfold Operation.Prints at filled
  unfold Session.print
  split at filled
  · rename_i empty
    simp [empty, filled]
  · rename_i given
    simp [given, filled]

theorem Operation.Twins.perform {call : Program σ → Act σ Reply}
    (hc : Runs (paintCustom P) (Painted P) call) {op op' : Operation} (twins : op.Twins P op')
    (h : Painted P s s') :
    Ends (Painted P) (GivenUp (Painted P) true) ((Session.perform call op).result s)
      ((Session.perform call op').result s') := by
  cases twins with
  | same kept => exact closed_painted.perform hc kept (.inl rfl) h
  | print filled filled' twins =>
      simp only [Session.perform, result_bind, result_print filled, result_print filled']
      exact (ends_ok ..).2 (h.printText twins trivial)
  | write twins => exact (ends_ok ..).2 (h.onEditor (h.1.editor.write twins trivial))
  | message same => exact (ends_ok ..).2 (h.onEditor (h.1.editor.showMessage same))
  | editorPrompt same => exact (ends_ok ..).2 (h.onEditor (h.1.editor.setPrompt same))
  | setPrompt same => exact (ends_ok ..).2 (h.setPrompt same)

/-- Twins run alike. -/
theorem Program.Twins.run {call : Program σ → Act σ Reply}
    (hc : Runs (paintCustom P) (Painted P) call) {p p' : Program σ} (twins : p.Twins P p')
    (h : Painted P s s') :
    Ends (Painted P) (GivenUp (Painted P) true) ((p.run call).result s)
      ((p'.run call).result s') := by
  -- By induction on how the programs are twins. The sessions change with every operation; that what
  -- is known of the settings stays known is part of `Painted`, and opens the case of `inspect`.
  induction twins generalizing s s' with
  | done reply => exact (ends_ok ..).2 h
  | fail cause => exact (ends_error ..).2 (GivenUp.ofTrue h)
  | consult _ ih =>
      simp only [Program.run, result_get_bind, h.1.akin.programs]
      exact ih s.programs h
  | note _ ih => exact ih (closed_painted.step (.note _) h rfl rfl)
  | inspect _ ih =>
      have settings : s'.settings.colourless = s.settings.colourless :=
        congrArg (·.settings) h.1.rest
      exact ih s.settings s'.settings settings h.2.2 s.colours s'.colours h
  | perform twins _ ih => exact Ends.bind (twins.perform hc h) fun reply t t' ht => ih reply ht
  | request called _ _ ih =>
      exact ih (closed_painted.requestInput _ _ _ (fun f hf answer data =>
        ⟨rfl, called f hf answer data⟩) h)
  | setMenu handlers generators hooks _ _ _ _ ih =>
      refine Ends.bind (closed_painted.setMenu (fun entries hm e he => ?_) (.inl rfl) h)
        fun taken t t' ht => ih taken ht
      exact ⟨fun argument => ⟨rfl, handlers entries hm e he argument⟩,
        fun g hg text number => ⟨rfl, generators entries hm e he g hg text number⟩,
        fun f hf word found longest => ⟨rfl, hooks entries hm e he f hf word found longest⟩⟩
  | suspended _ _ inner ih =>
      exact Ends.bind (closed_painted.blanked trivial (fun _ _ => inner) s s' h)
        fun _ t t' ht => ih ht
  | attempt _ _ inner ih =>
      exact Ends.outcome_bind (inner h) (fun _ t t' ht => ih _ ht) fun _ t t' ht => ih _ ht.1

/-- Down to any depth, programs that only paint by colours leave no other difference. -/
theorem runs_painted (depth : Nat) :
    Runs (paintCustom P) (Painted P) (Program.exec (σ := σ) depth) := by
  induction depth with
  | zero => exact fun b p held s s' h => (ends_error ..).2 ⟨h, .inr (.inl rfl)⟩
  | succ depth ih =>
      rintro b p ⟨rfl, paints⟩ s s' h
      exact paints.run ih h

/-! ### Step by step -/

def Session.after (depth : Nat) (s : Session σ) (steps : List (Program σ)) : Session σ :=
  steps.foldl (fun s p => ((p.exec depth).result s).2) s

theorem Session.after_cons (depth : Nat) (s : Session σ) (p : Program σ) (ps : List (Program σ)) :
    s.after depth (p :: ps) = ((p.exec depth).result s).2.after depth ps := rfl

/-- Two sessions have shown the same but for colour codes, and agree in the edit line, in what has
been logged, remembered and asked for, and in what programs have kept. -/
structure Session.SameUnpainted (s s' : Session σ) : Prop where
  screen : strip (textOf s'.editor.writes) = strip (textOf s.editor.writes)
  errors : s'.host.errors = s.host.errors
  printed : s'.host.printed = s.host.printed
  log : s'.host.log = s.host.log
  line : s'.editor.line = s.editor.line
  history : s'.editor.history = s.editor.history
  store : s'.host.store = s.host.store
  request : s'.request = s.request
  registry : s'.registry = s.registry
  programs : s'.programs = s.programs

theorem Session.Tinted.sameUnpainted (h : s.Tinted s') : s.SameUnpainted s' where
  screen := by
    unfold strip
    rw [h.editor.writes]
  errors := congrArg (·.host.errors) h.rest
  printed := congrArg (·.host.printed) h.rest
  log := h.akin.log
  line := congrArg (·.line) h.editor.rest
  history := congrArg (·.history) h.editor.rest
  store := congrArg (·.host.store) h.rest
  request := congrArg (·.request) h.rest
  registry := congrArg (·.registry) h.rest
  programs := congrArg (·.programs) h.rest

/-! Starting the shell puts any settings into force, so that nothing is known of them behind it. -/

/-- The same programs are bound, and may start the shell. -/
def Custom.starting (custom : Custom σ) : Custom σ := { custom with uses := fun _ => True }

theorem held_starting {custom : Custom σ} : s.Held custom.starting ↔ s.Held custom where
  mp h := ⟨h.consumer, fun t ht e he => ⟨(h.commands t ht e he).handler,
    (h.commands t ht e he).generator, (h.commands t ht e he).hook⟩, h.request, h.hook⟩
  mpr h := ⟨h.consumer, fun t ht e he => ⟨(h.commands t ht e he).handler,
    (h.commands t ht e he).generator, (h.commands t ht e he).hook⟩, h.request, h.hook⟩

/-- Two sessions differ in nothing but colours, their programs only paint by them, and nothing is
known of the settings. -/
abbrev Coloured (P : Settings → Prop) : Link σ := Tint (paintCustom P) fun _ => True

theorem coloured_start (depth : Nat) (argv : List String) (h : Coloured P s s') :
    Ends (Coloured P) (fun _ => Coloured P) (((Program.single (.start argv)).exec depth).result s)
      (((Program.single (.start argv)).exec depth).result s') := by
  -- The programs that are bound do not run here, so that they may be allowed more for a while.
  have stable : Stable (σ := σ) (paintCustom P).starting
      (Tint (paintCustom P).starting fun _ => True) :=
    Tint.stable id fun _ _ _ => trivial
  have loosen : ∀ t t' : Session σ, Tint (paintCustom P).starting (fun _ => True) t t' →
      Coloured P t t' := fun t t' ht => ⟨ht.1, held_starting.1 ht.2.1, trivial⟩
  cases depth with
  | zero => exact (ends_error ..).2 h
  | succ depth =>
      have started := @stable.start s s' argv trivial ⟨h.1, held_starting.2 h.2.1, trivial⟩
      refine Ends.bind (M := Coloured P) (Ends.bind (M := Coloured P) ?_ ?_) ?_
      · exact started.weaken loosen fun i t t' ht => loosen t t' ht.1
      · exact fun _ t t' ht => (ends_ok ..).2 ht
      · exact fun _ t t' ht => (ends_ok ..).2 ht

/-- A step of a session from outside: a program that only paints by colours, or a start. -/
def Program.IsStep (P : Settings → Prop) (p : Program σ) : Prop :=
  p.PaintsOnly P ∨ ∃ argv, p = .single (.start argv)

/-- A step leaves no other difference if what is known of the settings is known behind a start. -/
theorem painted_step (depth : Nat) {p : Program σ} (step : p.IsStep P)
    (renewed : ∀ argv, p = .single (.start argv) → P ((p.exec depth).result s).2.settings)
    (h : Painted P s s') : ∃ r t t', (p.exec depth).result s = (r, t) ∧
      (p.exec depth).result s' = (r, t') ∧ Painted P t t' := by
  obtain paints | ⟨argv, rfl⟩ := step
  · have run := runs_painted depth true p ⟨rfl, paints⟩ s s' h
    exact (run.weaken (fun _ _ ht => ht) fun _ _ _ ht => ht.1).exists_eq
  · obtain ⟨r, t, t', hs, hs', ht⟩ := (coloured_start depth argv ⟨h.1, h.2.1, trivial⟩).exists_eq
    have known := renewed argv rfl
    rw [hs] at known
    exact ⟨r, t, t', hs, hs', ht.1, ht.2.1, known⟩

theorem painted_after {depth : Nat} {steps : List (Program σ)} (h : Painted P s s')
    (allowed : ∀ p ∈ steps, p.IsStep P)
    (renewed : ∀ k argv, steps[k]? = some (.single (.start argv)) →
      P (s.after depth (steps.take (k + 1))).settings) :
    Painted P (s.after depth steps) (s'.after depth steps) := by
  induction steps generalizing s s' with
  | nil => exact h
  | cons p steps ih =>
      obtain ⟨first, others⟩ := List.forall_mem_cons.1 allowed
      obtain ⟨r, t, t', hs, hs', ht⟩ :=
        painted_step depth first (fun argv hp => renewed 0 argv (congrArg some hp)) h
      have goesOn : ∀ ps, s.after depth (p :: ps) = t.after depth ps := by
        intro ps
        rw [after_cons, hs]
      rw [goesOn, after_cons, hs']
      refine ih ht others fun k argv hk => ?_
      rw [← goesOn]
      exact renewed (k + 1) argv hk

/-- Where all programs only paint by colours, two sessions that differ in nothing but colours show
the same without colour codes behind every step, agree in all the rest, and end the next step
alike. -/
theorem sameUnpainted_after {depth : Nat} {steps : List (Program σ)} (differ : s.Tinted s')
    (held : s.Held (paintCustom P)) (allowed : ∀ p ∈ steps, p.IsStep P) (known : P s.settings)
    (renewed : ∀ k argv, steps[k]? = some (.single (.start argv)) →
      P (s.after depth (steps.take (k + 1))).settings) (k : Nat) :
    (s.after depth (steps.take k)).SameUnpainted (s'.after depth (steps.take k)) ∧
      ∀ p, steps[k]? = some p → ((p.exec depth).result (s'.after depth (steps.take k))).1 =
        ((p.exec depth).result (s.after depth (steps.take k))).1 := by
  have before : Painted P (s.after depth (steps.take k)) (s'.after depth (steps.take k)) := by
    refine painted_after ⟨differ, held, known⟩ (fun p hp => allowed p (List.mem_of_mem_take hp)) ?_
    intro j argv hj
    rw [List.getElem?_take] at hj
    split at hj
    · rename_i early
      rw [List.take_take, Nat.min_eq_left early]
      exact renewed j argv hj
    · cases hj
  refine ⟨before.1.sameUnpainted, fun p hp => ?_⟩
  have behind : ((p.exec depth).result (s.after depth (steps.take k))).2 =
      s.after depth (steps.take (k + 1)) := by
    rw [List.take_add_one, hp]
    simp [Session.after]
  obtain ⟨r, t, t', hs, hs', -⟩ := painted_step depth (allowed p (List.mem_of_getElem? hp))
    (fun argv start => behind ▸ renewed k argv (start ▸ hp)) before
  rw [hs, hs']

/-! ### The small menu -/

def Settings.Plain (o : Settings) : Prop := '\x1b' ∉ o.shell.prompt.toList

namespace Text.Template

theorem fill_marked (mark name : String) :
    fill "%s %s\n" [.text mark, .text name] = .ok (mark ++ " " ++ name ++ "\n") := by
  simp [fill, fillFrom, Rest.skip, field_text, bind, Except.bind, ← String.toList_inj]

end Text.Template

theorem Program.PaintsOnly.single {op : Operation} (ongoing : ∀ argv, op ≠ .start argv) :
    (Program.single op : Program σ).PaintsOnly P :=
  .perform (.same fun argv starts => absurd starts (ongoing argv)) fun reply => .done reply

theorem painted_bareShell {menu : List (Command.Entry (Program σ))}
    (commands : ∀ e ∈ menu, e.Held (paintCustom P)) (programs : σ) :
    (bareShell menu programs).Held (paintCustom P) := by
  have single : ∀ {op : Operation}, (∀ argv, op ≠ .start argv) →
      (paintCustom P).held true (.single op : Program σ) := fun ongoing => ⟨rfl, .single ongoing⟩
  exact held_bareShell (fun _ _ => single fun _ h => (nomatch h)) (single fun _ h => (nomatch h))
    (single fun _ h => (nomatch h)) commands

namespace Demo

theorem paintsOnly_judgePin (answer : String) (device : Datum) :
    (judgePin answer device : Program σ).PaintsOnly P := by
  unfold judgePin
  split <;> exact .single fun _ h => (nomatch h)

/-- The prompt is painted, which makes no other difference as long as it is plain. -/
theorem paintsOnly_colour (keep : String → σ → σ) (arg : String) :
    (colour keep arg).PaintsOnly Settings.Plain := by
  unfold colour
  split
  · exact .single fun _ h => (nomatch h)
  · rename_i c _
    refine .note (.inspect fun o o' same plain enabled enabled' => ?_)
    have prompt : o'.shell.prompt = o.shell.prompt := congrArg (·.shell.prompt) same
    have painted : unpaint (c.paint enabled' o'.shell.prompt) =
        unpaint (c.paint enabled o.shell.prompt) := by
      rw [prompt, unpaint_paint c enabled' plain, unpaint_paint c enabled plain]
    exact .perform (.setPrompt painted) fun reply => .done reply

theorem twins_marked (c : Colour) (mark name : String) (enabled enabled' : Bool) :
    Colour.Twins (fun _ => True) (mark ++ " " ++ c.paint enabled name ++ "\n")
      (mark ++ " " ++ c.paint enabled' name ++ "\n") := by
  have marked : ∀ s : Scan, (s.run (mark ++ " ").toList).2 = .text := by
    intro s
    simp only [String.toList_append]
    exact Scan.snd_run_concat s _ (.inl rfl)
  have closes : Scan.Opens ("" ++ "\n").toList :=
    ⟨'\n', [], rfl, by decide, by decide, by decide⟩
  have painted := twins_painted c enabled enabled' (mark ++ " ") name ""
    (fun s (_ : True) => .inl (marked s)) (.inr closes)
  simpa only [String.append_empty] using painted

theorem paintsOnly_showColours (current : σ → String) (names : List String) :
    (showColours current names).PaintsOnly P := by
  induction names with
  | nil => exact .done .nothing
  | cons name rest ih =>
      refine .consult fun state => .inspect fun o o' _ _ enabled enabled' => ?_
      refine .perform (.print (Text.Template.fill_marked _ _) (Text.Template.fill_marked _ _) ?_)
        fun _ => ih
      cases colours.lookup name with
      | none => exact .refl _ _
      | some c => exact twins_marked c _ name enabled enabled'

/-- All programs of the small menu only paint by colours. -/
theorem held_menu (current : σ → String) (keep : String → σ → σ) :
    ∀ e ∈ menu current keep, e.Held (paintCustom Settings.Plain) := by
  have single : ∀ {op : Operation}, (∀ argv, op ≠ .start argv) →
      (paintCustom Settings.Plain).held true (.single op : Program σ) :=
    fun ongoing => ⟨rfl, .single ongoing⟩
  intro e he
  simp only [menu, List.mem_cons, List.not_mem_nil, or_false] at he
  rcases he with rfl | rfl | rfl | rfl
  · exact ⟨fun _ => single fun _ h => (nomatch h), fun _ hg => (nomatch hg),
      fun _ hf => (nomatch hf)⟩
  · refine ⟨fun argument => ?_, fun _ hg => (nomatch hg), fun _ hf => (nomatch hf)⟩
    simp only [hexdump]
    split <;> exact single fun _ h => (nomatch h)
  · refine ⟨fun argument => ⟨rfl, .request ?_ (.done .nothing)⟩, fun _ hg => (nomatch hg),
      fun _ hf => (nomatch hf)⟩
    rintro f ⟨⟩ answer data
    exact paintsOnly_judgePin answer data
  · refine ⟨fun argument => ⟨rfl, paintsOnly_colour keep argument⟩, ?_, ?_⟩
    · rintro g ⟨⟩ text number
      exact ⟨rfl, .done _⟩
    · rintro f ⟨⟩ word found longest
      exact ⟨rfl, .perform (.same fun _ h => (nomatch h)) fun _ =>
        paintsOnly_showColours current found⟩

def onTerminal (env : Settings.Environment) : Session String :=
  let s := bareShell (menu id fun name _ => name) ""
  { s with host := { s.host with env, outputIsTerminal := true } }

/-- The shell is started, the names of colours are shown and one is chosen, a request is answered,
and the commands are listed. -/
def tour : List (Program String) :=
  [.start ["demo"], .feed "color \t", .feed "red\r", .feed "pin\r", .feed "12\r", .printMenu].map
    .single

set_option maxRecDepth 4096 in
/-- With colours and without them the tour shows the same but for colour codes, which are there. -/
theorem sameUnpainted_tour :
    (∀ k, ((onTerminal []).after 3 (tour.take k)).SameUnpainted
        ((onTerminal [("NO_COLOR", "1")]).after 3 (tour.take k)) ∧
      ∀ p, tour[k]? = some p →
        ((p.exec 3).result ((onTerminal [("NO_COLOR", "1")]).after 3 (tour.take k))).1 =
          ((p.exec 3).result ((onTerminal []).after 3 (tour.take k))).1) ∧
    ((onTerminal []).after 3 (tour.take 2)).editor.writes ≠
      ((onTerminal [("NO_COLOR", "1")]).after 3 (tour.take 2)).editor.writes := by
  have tinted : Settings.Environment.Tinted .standard [] [("NO_COLOR", "1")] :=
    Settings.tinted_of_without rfl
  have differ : (onTerminal []).Tinted (onTerminal [("NO_COLOR", "1")]) :=
    ⟨rfl, tinted.mapFault Settings.Trouble.known, .refl _⟩
  have held : (onTerminal []).Held (paintCustom Settings.Plain) :=
    (painted_bareShell (held_menu id fun name _ => name) "").congr rfl rfl rfl rfl
  have allowed : ∀ p ∈ tour, p.IsStep Settings.Plain := by
    intro p hp
    simp only [tour, List.map_cons, List.map_nil, List.mem_cons, List.not_mem_nil, or_false] at hp
    rcases hp with rfl | rfl | rfl | rfl | rfl | rfl
    · exact .inr ⟨_, rfl⟩
    all_goals exact .inl (.single fun _ h => (nomatch h))
  have plain : (onTerminal []).settings.Plain := by
    unfold Settings.Plain
    decide
  have renewed : ∀ k argv, tour[k]? = some (.single (.start argv)) →
      ((onTerminal []).after 3 (tour.take (k + 1))).settings.Plain := by
    unfold Settings.Plain
    rintro (_ | _ | _ | _ | _ | _ | k) argv hk
    · decide +kernel
    all_goals simp [tour, Program.single] at hk
  refine ⟨sameUnpainted_after differ held allowed plain renewed, ?_⟩
  decide +kernel

end Demo

end LineShell
