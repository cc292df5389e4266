import LineShell.Proofs.Lockstep

/-!
# Programs that keep to rules

What is proved about all runs of a shell depends on what the programs it is used by may do: the
operations they use, and which of them may give up. Rules are closed under everything that a program
hands to the shell, so the handlers, callbacks, generators and hooks found in a state keep to them
as the programs that left them there do.
-/

namespace LineShell

variable {σ : Type}

/-- What the programs that use a shell may do. -/
structure Rules where
  /-- The operations that they use. -/
  uses : Operation → Prop
  /-- They may run parts with the edit line blanked. -/
  blanks : Prop
  /-- A callback of a request may give up as any other program may. -/
  callbacksGiveUp : Bool

/-- Operations that every relation treated here is kept by. -/
def Operation.IsCommon : Operation → Prop
  | dispatch _ | print .. | dump _ | printMenu | quit | hangUp | setPrompt _ | release _
  | signal _ | log _ | start _ | install _ => True
  | _ => False

/-- Common operations that do not begin a run of the shell. -/
def Operation.IsOngoing : Operation → Prop
  | start _ | install _ => False
  | op => op.IsCommon

/-- Operations that do not give up of themselves. -/
def Operation.IsQuiet : Operation → Prop
  | print template args => args = [] ∨ ∃ text, Text.Template.fill template args = .ok text
  | dispatch _ | dump _ | printMenu | quit | hangUp | setPrompt _ | release _ | signal _
  | log _ => True
  | _ => False

theorem Operation.IsOngoing.isCommon {op : Operation} (h : op.IsOngoing) : op.IsCommon := by
  cases op <;> first | exact h | exact h.elim

/-- What may end a program: anything if it may give up, or else that programs were nested too deep,
or that one of them ends the whole program. -/
def Interrupt.MayEnd (givesUp : Bool) (i : Interrupt) : Prop :=
  givesUp = true ∨ i = .failure .tooDeep ∨ ∃ code, i = .exit code

/-- A program keeps to rules; the flag says whether it may give up. -/
inductive Program.Follows (rules : Rules) : Bool → Program σ → Prop
  | done {b : Bool} (reply : Reply) : Follows rules b (.done reply)
  | fail (cause : Interrupt) : Follows rules true (.fail cause)
  | consult {b : Bool} {next : σ → Program σ} (h : ∀ state, Follows rules b (next state)) :
      Follows rules b (.consult next)
  | note {b : Bool} {change : σ → σ} {next : Program σ} (h : Follows rules b next) :
      Follows rules b (.note change next)
  | inspect {b : Bool} {next : Settings → Bool → Program σ}
      (h : ∀ settings colours, Follows rules b (next settings colours)) :
      Follows rules b (.inspect next)
  | perform {b : Bool} {op : Operation} {next : Reply → Program σ} (allowed : rules.uses op)
      (quiet : b = true ∨ rules.callbacksGiveUp = false ∧ op.IsQuiet)
      (h : ∀ reply, Follows rules b (next reply)) :
      Follows rules b (.perform op next)
  | request {b : Bool} {label message : String}
      {callback : Option (String → Datum → Program σ)} {data : Datum} {next : Program σ}
      (called : ∀ f, callback = some f → ∀ answer data,
        Follows rules rules.callbacksGiveUp (f answer data))
      (h : Follows rules b next) : Follows rules b (.request label message callback data next)
  | setMenu {b : Bool} {menu : Option (List (Command.Entry (Program σ)))}
      {next : Bool → Program σ}
      (handlers : ∀ entries, menu = some entries → ∀ e ∈ entries, ∀ argument,
        Follows rules true (e.handler argument))
      (generators : ∀ entries, menu = some entries → ∀ e ∈ entries, ∀ g, e.generator = some g →
        ∀ text number, Follows rules true (g text number))
      (hooks : ∀ entries, menu = some entries → ∀ e ∈ entries, ∀ f, e.displayHook = some f →
        ∀ word found longest, Follows rules true (f word found longest))
      (quiet : b = true ∨ ∀ entries, menu = some entries →
        ∃ table, Command.Table.ofList entries = .ok table)
      (h : ∀ taken, Follows rules b (next taken)) : Follows rules b (.setMenu menu next)
  | suspended {b : Bool} {body next : Program σ} (allowed : rules.blanks)
      (inner : Follows rules b body) (h : Follows rules b next) :
      Follows rules b (.suspended body next)
  | attempt {b : Bool} {body : Program σ} {next : Except Interrupt Reply → Program σ}
      (inner : Follows rules true body) (h : ∀ r, Follows rules b (next r)) :
      Follows rules b (.attempt body next)

structure Command.Entry.Follows (rules : Rules) (e : Command.Entry (Program σ)) : Prop where
  handler : ∀ argument, (e.handler argument).Follows rules true
  generator : ∀ g, e.generator = some g → ∀ text number, (g text number).Follows rules true
  hook : ∀ f, e.displayHook = some f →
    ∀ word found longest, (f word found longest).Follows rules true

/-- All programs held by a shell keep to rules, and its lines go to its commands. -/
structure Session.Follows (rules : Rules) (s : Session σ) : Prop where
  consumer : s.consumer = .commands
  commands : ∀ table ∈ s.registry.tables, ∀ e ∈ table.entries, e.Follows rules
  request : ∀ r, s.request = some r → ∀ f, r.callback = some f →
    ∀ answer data, (f answer data).Follows rules rules.callbacksGiveUp
  hook : ∀ engine, s.completion = some engine → ∀ f, engine.displayHook = some f →
    ∀ word found longest, (f word found longest).Follows rules true

theorem Session.Follows.congr {rules : Rules} {s s' : Session σ} (h : s.Follows rules)
    (consumer : s'.consumer = s.consumer) (registry : s'.registry = s.registry)
    (request : s'.request = s.request) (completion : s'.completion = s.completion) :
    s'.Follows rules where
  consumer := consumer.trans h.consumer
  commands := registry ▸ h.commands
  request := request ▸ h.request
  hook := completion ▸ h.hook

def freeRules : Rules where
  uses _ := True
  blanks := True
  callbacksGiveUp := true

/-- Rules that forbid nothing are kept by every program. -/
theorem Program.follows_free (p : Program σ) : p.Follows freeRules true := by
  refine @Program.rec σ (fun p => p.Follows freeRules true)
    (fun callback => ∀ f, callback = some f → ∀ answer data, (f answer data).Follows freeRules true)
    (fun menu => ∀ entries, menu = some entries → ∀ e ∈ entries, e.Follows freeRules)
    (fun entries => ∀ e ∈ entries, e.Follows freeRules) (fun e => e.Follows freeRules)
    (fun generator => ∀ g, generator = some g →
      ∀ text number, (g text number).Follows freeRules true)
    (fun hook => ∀ f, hook = some f →
      ∀ word found longest, (f word found longest).Follows freeRules true)
    ?done ?fail ?consult ?note ?inspect ?perform ?request ?setMenu ?suspended ?attempt
    ?silent ?callback ?menuless ?menu ?empty ?entries ?entry ?generatorless ?generator
    ?hookless ?hook p
  case done => exact fun reply => .done reply
  case fail => exact fun cause => .fail cause
  case consult => exact fun _ h => .consult h
  case note => exact fun _ _ h => .note h
  case inspect => exact fun _ h => .inspect h
  case perform => exact fun _ _ h => .perform trivial (.inl rfl) h
  case request => exact fun _ _ _ _ _ called h => .request called h
  case setMenu =>
    exact fun menu _ commands h => .setMenu (fun es hm e he => (commands es hm e he).handler)
      (fun es hm e he => (commands es hm e he).generator)
      (fun es hm e he => (commands es hm e he).hook) (.inl rfl) h
  case suspended => exact fun _ _ inner h => .suspended trivial inner h
  case attempt => exact fun _ _ inner h => .attempt inner h
  case entry => exact fun _ _ _ _ _ _ handler generator hook => ⟨handler, generator, hook⟩
  case entries => exact fun _ _ first rest => List.forall_mem_cons.2 ⟨first, rest⟩
  case empty => exact fun _ he => (nomatch he)
  case silent | menuless | generatorless | hookless => exact fun _ h => (nomatch h)
  case callback | menu | generator | hook => exact fun _ h _ hf => Option.some.inj hf ▸ h

theorem Session.follows_free {s : Session σ} (commands : s.consumer = .commands) :
    s.Follows freeRules where
  consumer := commands
  commands _ _ _ _ := ⟨fun _ => Program.follows_free _, fun _ _ _ _ => Program.follows_free _,
    fun _ _ _ _ _ => Program.follows_free _⟩
  request _ _ _ _ _ _ := Program.follows_free _
  hook _ _ _ _ _ _ _ := Program.follows_free _

/-- One state is as another except for where the input comes from. -/
structure Session.Alike (s s' : Session σ) : Prop where
  host : s'.host = s.host
  editor : s'.editor = s.editor
  registry : s'.registry = s.registry
  completion : s'.completion = s.completion
  consumer : s'.consumer = s.consumer
  request : s'.request = s.request
  journal : s'.journal = s.journal
  input : s'.input.isSome = s.input.isSome
  loop : s'.loop = s.loop
  bridge : s'.bridge = s.bridge
  quitting : s'.quitting = s.quitting
  tornDown : s'.tornDown = s.tornDown
  settings : s'.settings = s.settings
  colours : s'.colours = s.colours
  programs : s'.programs = s.programs

theorem Session.Alike.refl (s : Session σ) : s.Alike s := by
  constructor <;> rfl

/-- One state is as another in all that programs can tell. -/
structure Session.Similar (s s' : Session σ) : Prop where
  store : s'.host.store = s.host.store
  library : s'.host.library = s.host.library
  env : s'.host.env = s.host.env
  places : s'.host.places = s.host.places
  logTime : s'.host.logTime = s.host.logTime
  entryTime : s'.host.entryTime = s.host.entryTime
  log : s'.host.log = s.host.log
  history : s'.editor.history = s.editor.history
  registry : s'.registry = s.registry
  completion : s'.completion = s.completion
  consumer : s'.consumer = s.consumer
  request : s'.request = s.request
  input : s'.input.isSome = s.input.isSome
  loop : s'.loop = s.loop
  bridge : s'.bridge = s.bridge
  settings : s'.settings = s.settings
  colours : s'.colours = s.colours
  programs : s'.programs = s.programs

theorem Session.Alike.similar {s s' : Session σ} (h : s.Alike s') : s.Similar s' where
  store := congrArg (·.store) h.host
  library := congrArg (·.library) h.host
  env := congrArg (·.env) h.host
  places := congrArg (·.places) h.host
  logTime := congrArg (·.logTime) h.host
  entryTime := congrArg (·.entryTime) h.host
  log := congrArg (·.log) h.host
  history := congrArg (·.history) h.editor
  registry := h.registry
  completion := h.completion
  consumer := h.consumer
  request := h.request
  input := h.input
  loop := h.loop
  bridge := h.bridge
  settings := h.settings
  colours := h.colours
  programs := h.programs

/-- One state is as another in all that the common operations go by: colours and other settings
count only as far as they decide which texts are written. -/
structure Session.Akin (s s' : Session σ) : Prop where
  store : s'.host.store = s.host.store
  width : Columns.terminalWidth s'.host.env = Columns.terminalWidth s.host.env
  places : s'.host.places = s.host.places
  logTime : s'.host.logTime = s.host.logTime
  entryTime : s'.host.entryTime = s.host.entryTime
  log : s'.host.log = s.host.log
  history : s'.editor.history = s.editor.history
  registry : s'.registry = s.registry
  completion : s'.completion = s.completion
  consumer : s'.consumer = s.consumer
  request : s'.request = s.request
  input : s'.input.isSome = s.input.isSome
  loop : s'.loop = s.loop
  bridge : s'.bridge = s.bridge
  programs : s'.programs = s.programs

theorem Session.Similar.akin {s s' : Session σ} (h : s.Similar s') : s.Akin s' :=
  { h with width := congrArg _ h.env }

/-! ### Customs -/

/-- What binds the programs that use a shell, given by the programs that are bound. Unlike rules it
may be about what a program does with the replies, and not only about what it asks for. -/
structure Custom (σ : Type) where
  uses : Operation → Prop
  blanks : Prop
  callbacksGiveUp : Bool
  /-- Programs may look at the settings and at whether colours are in use, whatever they do then. -/
  inspects : Prop
  /-- The programs that are bound; the flag says whether they may give up. -/
  held : Bool → Program σ → Prop

@[reducible] def Rules.custom (rules : Rules) : Custom σ where
  uses := rules.uses
  blanks := rules.blanks
  callbacksGiveUp := rules.callbacksGiveUp
  inspects := True
  held b p := p.Follows rules b

instance : Coe Rules (Custom σ) := ⟨Rules.custom⟩

structure Command.Entry.Held (custom : Custom σ) (e : Command.Entry (Program σ)) : Prop where
  handler : ∀ argument, custom.held true (e.handler argument)
  generator : ∀ g, e.generator = some g → ∀ text number, custom.held true (g text number)
  hook : ∀ f, e.displayHook = some f → ∀ word found longest, custom.held true (f word found longest)

/-- All programs that a shell holds are bound, and its lines go to its commands. -/
structure Session.Held (custom : Custom σ) (s : Session σ) : Prop where
  consumer : s.consumer = .commands
  commands : ∀ table ∈ s.registry.tables, ∀ e ∈ table.entries, e.Held custom
  request : ∀ r, s.request = some r → ∀ f, r.callback = some f →
    ∀ answer data, custom.held custom.callbacksGiveUp (f answer data)
  hook : ∀ engine, s.completion = some engine → ∀ f, engine.displayHook = some f →
    ∀ word found longest, custom.held true (f word found longest)

theorem Session.Held.congr {custom : Custom σ} {s s' : Session σ} (h : s.Held custom)
    (consumer : s'.consumer = s.consumer) (registry : s'.registry = s.registry)
    (request : s'.request = s.request) (completion : s'.completion = s.completion) :
    s'.Held custom where
  consumer := consumer.trans h.consumer
  commands := registry ▸ h.commands
  request := request ▸ h.request
  hook := completion ▸ h.hook

theorem Command.Entry.held_custom {rules : Rules} {e : Command.Entry (Program σ)} :
    e.Held rules.custom ↔ e.Follows rules :=
  ⟨fun h => ⟨h.handler, h.generator, h.hook⟩, fun h => ⟨h.handler, h.generator, h.hook⟩⟩

theorem Session.held_custom {rules : Rules} {s : Session σ} :
    s.Held rules.custom ↔ s.Follows rules where
  mp h := ⟨h.consumer, fun t ht e he => Command.Entry.held_custom.1 (h.commands t ht e he),
    h.request, h.hook⟩
  mpr h := ⟨h.consumer, fun t ht e he => Command.Entry.held_custom.2 (h.commands t ht e he),
    h.request, h.hook⟩

end LineShell
