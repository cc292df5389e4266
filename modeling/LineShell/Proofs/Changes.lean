import LineShell.Proofs.Rules

/-!
# The changes that programs make

Whatever programs do to a shell by the common operations is made of a few changes of its state. A
relation that each of these keeps is kept by all of what the shell does for programs: by its log, by
the listing of commands, by requests and signals.
-/

namespace LineShell

open Act Session

variable {σ : Type}

/-- The changes that programs make to a shell in a state, each one as a whole. -/
inductive Change (custom : Custom σ) (s : Session σ) : (Session σ → Session σ) → Prop
  | print (text : String) : Change custom s (·.printText text)
  | report (line : String) : Change custom s (·.reportLine line)
  | note (f : σ → σ) : Change custom s fun t => { t with programs := f t.programs }
  /-- A request begins, none being there. -/
  | ask {label message : String} {callback : Option (String → Datum → Program σ)} {data : Datum}
      (idle : s.request = none)
      (called : ∀ f, callback = some f → ∀ answer data,
        custom.held custom.callbacksGiveUp (f answer data)) :
      Change custom s fun t =>
        { (t.record (.asked ⟨callback, data⟩ t.colours label message)).onEditor fun e =>
            e.savePrompt.showMessage (requestMessage t.colours label message) with
          request := some ⟨callback, data⟩ }
  /-- A request is made in vain, another one being there. -/
  | refuse {r : PendingRequest σ} (waiting : s.request = some r) (vain : PendingRequest σ) :
      Change custom s (·.record (.refused vain))
  /-- The request is over. -/
  | answer {r : PendingRequest σ} (waiting : s.request = some r) (answer : String) :
      Change custom s (·.answered r answer)
  /-- A menu is installed, none being there. -/
  | menu (registry : Command.Registry (Program σ))
      (commands : ∀ table ∈ registry.tables, ∀ e ∈ table.entries, e.Held custom)
      (unset : s.registry.menu = none) :
      Change custom s fun t => { t with registry }
  /-- A line has been added to the history, and maybe to its file. -/
  | remember (history : Edit.History) (store : Files.Store)
      (file : history.file = s.editor.history.file)
      (added : ∃ line, history = s.editor.history.remember line) :
      Change custom s fun t =>
        { t.onEditor fun e => { e with history } with host := { t.host with store } }
  /-- Keys are no longer accepted. -/
  | retire : Change custom s fun t => { t.onEditor (·.remove) with quitting := true }
  | stop : Change custom s fun t =>
      { t with loop := t.loop.map fun l => { l with stopping := true } }
  | prompt (text : String) : Change custom s (·.setPrompt text)
  /-- A signal is about to end the shell. -/
  | latch {signal : Signal} (signals : custom.uses (.signal signal)) :
      Change custom s fun t => { t with bridge := { t.bridge with terminated := true } }
  /-- A signal has thrown the line away, and the prompt is drawn on a new row. -/
  | interrupt (attached : s.input.isSome) (signals : custom.uses (.signal .interrupt)) :
      Change custom s fun t => t.discardLine.onEditor (·.redisplay)
  /-- A signal has thrown the line away and ends the shell. -/
  | terminate : Change custom s fun t =>
      { t.discardLine.onEditor (·.remove) with quitting := true }
  | printLine {argv : List String} (starts : custom.uses (.start argv)) (line : String) :
      Change custom s (·.printLine line)
  /-- Settings that a command line asks for. -/
  | adopt {argv : List String} (starts : custom.uses (.start argv)) (settings : Settings)
      {o : Options} (read : Options.ofArgs argv = .ok o)
      (asked : ∃ t, (requestedSettings o).result t = (.ok settings, s)) :
      Change custom s (·.adoptSettings settings)
  | store {argv : List String} (starts : custom.uses (.start argv)) (store : Files.Store) :
      Change custom s fun t => { t with host := { t.host with store } }
  | load {argv : List String} (starts : custom.uses (.start argv)) (history : Edit.History)
      (loaded : ∃ store path, (s.editor.history.load store path).1 = .ok history) :
      Change custom s (·.onEditor fun e => { e with history })
  | begin {argv : List String} (starts : custom.uses (.start argv)) : Change custom s beginRun
  | install {prompt : String} (installs : custom.uses (.install prompt)) :
      Change custom s (·.onEditor (·.install prompt))

/-- What is left where a program that may give up or not has been given up in a relation. -/
def GivenUp (R : Link σ) (b : Bool) (i : Interrupt) : Link σ :=
  fun s s' => R s s' ∧ i.MayEnd b

def Runs (custom : Custom σ) (R : Link σ) (call : Program σ → Act σ Reply) : Prop :=
  ∀ b p, custom.held b p → Lockstep R (call p) R (GivenUp R b)

/-- A relation that is kept by every change that programs make. -/
structure Steady (custom : Custom σ) (R : Link σ) : Prop where
  similar : ∀ {s s'}, R s s' → s.Akin s'
  held : ∀ {s s'}, R s s' → s.Held custom
  change : ∀ {s s' f}, R s s' → Change custom s f → R (f s) (f s')

/-- A relation that is kept by all that common operations do. What is painted, and what goes by the
settings, need not be the same change in both states. -/
structure Stable (custom : Custom σ) (R : Link σ) : Prop extends Steady custom R where
  /-- Programs that may look at settings and colours see the same. -/
  seen : ∀ {s s'}, custom.inspects → R s s' → s'.settings = s.settings ∧ s'.colours = s.colours
  invalid : ∀ {s s'}, R s s' →
    R (s.printHighlighted "Invalid command") (s'.printHighlighted "Invalid command")
  failed : ∀ {s s'} name f, R s s' → R (s.commandFailed name f) (s'.commandFailed name f)
  listing : ∀ {s s'}, R s s' → R s.printMenu s'.printMenu
  start : ∀ {s s' argv}, custom.uses (.start argv) → R s s' →
    Ends R (GivenUp R true) ((Session.start argv).result s) ((Session.start argv).result s')

/-- A relation that is also kept by what else programs may do. -/
structure Closed (custom : Custom σ) (R : Link σ) : Prop extends Stable custom R where
  other : ∀ {call op}, Runs custom R call → custom.uses op → ¬ op.IsCommon →
    Lockstep R (perform call op) R fun _ => R
  blanked : ∀ {body body' : Act σ Reply} {b}, custom.blanks →
    (∀ s s', R s s' → Ends R (GivenUp R b) (body.result s) (body'.result s')) →
    ∀ s s', R s s' →
      Ends R (GivenUp R b) ((suspended body).result s) ((suspended body').result s')

variable {custom : Custom σ} {R : Link σ} {s s' : Session σ}

theorem Interrupt.MayEnd.ofTrue (i : Interrupt) : i.MayEnd true := .inl rfl

theorem GivenUp.ofTrue {i : Interrupt} (h : R s s') : GivenUp R true i s s' := ⟨h, .ofTrue i⟩

namespace Steady

theorem step (st : Steady custom R) {f : Session σ → Session σ} (c : Change custom s f) (h : R s s')
    {t t' : Session σ} (ht : f s = t) (ht' : f s' = t') : R t t' :=
  ht ▸ ht' ▸ st.change h c

theorem foldl {α : Type} {f : Session σ → α → Session σ}
    (step : ∀ x {s s'}, R s s' → R (f s x) (f s' x)) (l : List α) (h : R s s') :
    R (l.foldl f s) (l.foldl f s') := by
  induction l generalizing s s' with
  | nil => exact h
  | cons x l ih => exact ih (step x h)

theorem log (st : Steady custom R) (e : Log.Event) (h : R s s') : R (s.log e) (s'.log e) := by
  unfold Session.log
  rw [(st.similar h).log, (st.similar h).logTime]
  rcases s.host.log with _ | ⟨format, toScreen⟩
  · exact h
  · refine foldl (fun line s s' h => ?_) _ h
    cases toScreen with
    | true => exact st.step (.print (line ++ "\n")) h rfl rfl
    | false => exact st.step (.report line) h rfl rfl

theorem logAll (st : Steady custom R) (es : List Log.Event) (h : R s s') :
    R (s.logAll es) (s'.logAll es) :=
  foldl (fun e _ _ h => st.log e h) es h

theorem dump (st : Steady custom R) (bytes : List UInt8) (h : R s s') :
    R (s.dump bytes) (s'.dump bytes) := by
  unfold Session.dump
  refine foldl (fun line s s' h => ?_) _ h
  exact st.step (.print _) h rfl rfl

theorem quit (st : Steady custom R) (h : R s s') : R s.quit s'.quit :=
  st.step .stop (st.log ⟨.debug, "Quit requested", []⟩ (st.step .retire h rfl rfl)) rfl rfl

theorem hangUp (st : Steady custom R) (h : R s s') : R s.hangUp s'.hangUp :=
  st.quit (st.log _ h)

theorem terminate (st : Steady custom R) {signal : Signal} (signals : custom.uses (.signal signal))
    (h : R s s') : R s.terminate s'.terminate := by
  have hb : s'.bridge.terminated = s.bridge.terminated := by rw [(st.similar h).bridge]
  unfold Session.terminate
  rw [hb]
  split
  · exact h
  · have latched : R { s with bridge := { s.bridge with terminated := true } }
        { s' with bridge := { s'.bridge with terminated := true } } :=
      st.step (.latch signals) h rfl rfl
    have ended := st.step .terminate
      (st.log ⟨.info, "Termination requested by signal", []⟩ latched) rfl rfl
    exact st.step .stop (st.log ⟨.debug, "Quit requested", []⟩ ended) rfl rfl

theorem receiveSignal (st : Steady custom R) {signal : Signal}
    (signals : custom.uses (.signal signal)) (h : R s s') :
    R (s.receiveSignal signal) (s'.receiveSignal signal) := by
  cases signal with
  | interrupt =>
      unfold Session.receiveSignal
      simp only
      rw [(st.similar h).input]
      split
      · rename_i attached
        exact st.step (.interrupt attached signals) h rfl rfl
      · exact st.terminate signals h
  | terminate => exact st.terminate signals h
  | hangUp => exact h

theorem requestInput (st : Steady custom R) (label message : String)
    {callback : Option (String → Datum → Program σ)} (data : Datum)
    (called : ∀ f, callback = some f → ∀ answer data,
      custom.held custom.callbacksGiveUp (f answer data)) (h : R s s') :
    R (s.requestInput label message callback data)
      (s'.requestInput label message callback data) := by
  unfold Session.requestInput
  rw [(st.similar h).request]
  cases hr : s.request with
  | some r => exact st.log _ (st.change h (.refuse hr ⟨callback, data⟩))
  | none => exact st.step (.ask hr called) h rfl rfl

/-! ### Starting a shell -/

theorem exitWith {α : Type} (st : Steady custom R) (report : String) (h : R s s') :
    Ends R (GivenUp R true) ((Session.exitWith report : Act σ α).result s)
      ((Session.exitWith report : Act σ α).result s') := by
  simp only [Session.exitWith, result_modify_bind, result_throw]
  exact (ends_error ..).2 ⟨st.step (.report report) h rfl rfl, .ofTrue _⟩

theorem loadHistory (st : Steady custom R) {argv : List String}
    (starts : custom.uses (.start argv)) (path : Path) (h : R s s') :
    Ends R (GivenUp R true) ((Session.loadHistory path).result s)
      ((Session.loadHistory path).result s') := by
  simp only [Session.loadHistory, result_get_bind]
  rw [(st.similar h).history, (st.similar h).store]
  rcases read : s.editor.history.load s.host.store path with ⟨loaded, store⟩
  have stored := st.change h (.store starts store)
  simp only [result_modify_bind] at stored ⊢
  split
  · have loaded := congrArg Prod.fst read
    exact (ends_ok ..).2 (st.change stored (.load starts _ ⟨_, _, loaded⟩))
  · exact (ends_ok ..).2 (st.log _ stored)
  · exact (ends_error ..).2 ⟨stored, .ofTrue _⟩

theorem openHistory (st : Steady custom R) {argv : List String}
    (starts : custom.uses (.start argv)) (settings : Settings) (h : R s s') :
    Ends R (GivenUp R true) ((Session.openHistory settings).result s)
      ((Session.openHistory settings).result s') := by
  simp only [Session.openHistory, result_get_bind]
  rw [(st.similar h).places]
  split
  · exact (ends_error ..).2 ⟨h, .ofTrue _⟩
  · exact (ends_ok ..).2 h
  · exact st.loadHistory starts _ h

/-- Where a command line starts nothing it ends alike, so that only the start with options is left
to be looked at. -/
theorem startFrom (st : Steady custom R) {argv : List String} (starts : custom.uses (.start argv))
    (begun : ∀ o, Options.ofArgs argv = .ok o →
      Ends R (GivenUp R true) ((startWith o).result s) ((startWith o).result s')) (h : R s s') :
    Ends R (GivenUp R true) ((Session.start argv).result s) ((Session.start argv).result s') := by
  have ended : ∀ line, Ends R (GivenUp R true) ((endWith line : Act σ (List String)).result s)
      ((endWith line : Act σ (List String)).result s') := by
    intro line
    simp only [endWith, result_modify_bind, result_throw]
    exact (ends_error ..).2 ⟨st.step (.printLine starts line) h rfl rfl, .ofTrue _⟩
  unfold Session.start
  cases ho : Options.ofArgs argv with
  | error fault => exact st.exitWith _ h
  | ok o =>
      simp only
      split
      · exact ended helpText
      · split
        · exact ended version
        · exact begun o ho

end Steady

/-! ### States that programs cannot tell apart -/

structure Exact (custom : Custom σ) (R : Link σ) : Prop where
  alike : ∀ {s s'}, R s s' → s.Similar s'
  held : ∀ {s s'}, R s s' → s.Held custom
  change : ∀ {s s' f}, R s s' → Change custom s f → R (f s) (f s')

namespace Exact

theorem steady (ex : Exact custom R) : Steady custom R where
  similar h := (ex.alike h).akin
  held := ex.held
  change := ex.change

theorem printHighlighted (ex : Exact custom R) (text : String) (h : R s s') :
    R (s.printHighlighted text) (s'.printHighlighted text) := by
  unfold Session.printHighlighted highlighted
  rw [(ex.alike h).colours]
  exact ex.steady.step (.print _) h rfl rfl

theorem printMenu (ex : Exact custom R) (h : R s s') : R s.printMenu s'.printMenu := by
  have head := ex.printHighlighted "-------------------"
    (ex.printHighlighted "Available commands:" h)
  unfold Session.printMenu
  simp only
  rw [(ex.alike head).registry]
  refine Steady.foldl (fun e s s' h => ?_) _ head
  unfold highlighted
  rw [(ex.alike h).colours]
  exact ex.steady.step (.print _) h rfl rfl

theorem requestedSettings (ex : Exact custom R) (o : Options) (h : R s s') :
    Ends R (GivenUp R true) ((Session.requestedSettings o).result s)
      ((Session.requestedSettings o).result s') := by
  unfold Session.requestedSettings
  refine Ends.bind (M := R) ?_ fun _ t t' ht => (ends_ok ..).2 ht
  simp only [Session.namedSettings, result_get_bind]
  have hs := ex.alike h
  rw [hs.store, hs.library, hs.env, hs.places, hs.settings]
  split
  · exact (ends_ok ..).2 h
  · split
    · exact (ends_ok ..).2 h
    · split
      · exact ex.steady.exitWith _ h
      · exact (ends_error ..).2 ⟨h, .ofTrue _⟩

theorem startWith (ex : Exact custom R) {argv : List String} (starts : custom.uses (.start argv))
    {o : Options} (read : Options.ofArgs argv = .ok o) (h : R s s') :
    Ends R (GivenUp R true) ((Session.startWith o).result s) ((Session.startWith o).result s') := by
  unfold Session.startWith
  refine (ex.requestedSettings o h).bind_of_result fun settings t t' asked ht => ?_
  simp only [result_modify_bind]
  have adopted := ex.steady.change ht (.adopt starts settings read ⟨s, asked⟩)
  refine Ends.bind (Ends.checkLevel settings adopted fun _ => .ofTrue adopted)
    fun _ v v' checked => ?_
  refine Ends.bind (ex.steady.openHistory starts settings checked) fun _ u u' hu => ?_
  exact (ends_ok ..).2 (ex.steady.step (.begin starts) hu rfl rfl)

theorem stable (ex : Exact custom R) : Stable custom R where
  toSteady := ex.steady
  seen _ h := ⟨(ex.alike h).settings, (ex.alike h).colours⟩
  invalid := ex.printHighlighted _
  failed _ _ h := ex.printHighlighted _ (ex.steady.log _ h)
  listing := ex.printMenu
  start starts h := ex.steady.startFrom starts (fun _ read => ex.startWith starts read h) h

end Exact

/-! ### Programs found in a state -/

/-- The programs found in a state are bound whatever change is made. -/
theorem Change.held {f : Session σ → Session σ} (c : Change custom s f) (h : s.Held custom) :
    (f s).Held custom := by
  cases c with
  | ask idle called =>
      refine ⟨h.consumer, h.commands, ?_, h.hook⟩
      intro r hr g hg
      cases hr
      exact called g hg
  | answer waiting => exact ⟨h.consumer, h.commands, fun _ hr => (nomatch hr), h.hook⟩
  | menu registry commands => exact ⟨h.consumer, commands, h.request, h.hook⟩
  | prompt text =>
      simp only [Session.setPrompt]
      split
      · exact h.congr rfl rfl rfl rfl
      · exact h
  | _ => exact h.congr rfl rfl rfl rfl

theorem Change.follows {rules : Rules} {f : Session σ → Session σ}
    (c : Change rules.custom s f) (h : s.Follows rules) : (f s).Follows rules :=
  held_custom.1 (c.held (held_custom.2 h))

/-! ### Invariants -/

/-- A property of single states, as the relation of those that have it with themselves. -/
def Invariant (rules : Rules) (P : Session σ → Prop) : Link σ :=
  fun s s' => s = s' ∧ P s ∧ s.Follows rules

theorem Stable.ofInvariant {rules : Rules} {P : Session σ → Prop}
    (change : ∀ {s f}, P s → Change rules.custom s f → P (f s)) :
    Stable rules.custom (Invariant rules P) := by
  refine Exact.stable ⟨?_, fun h => held_custom.2 h.2.2, ?_⟩
  · rintro s _ ⟨rfl, -, -⟩
    exact (Alike.refl s).similar
  · rintro s _ f ⟨rfl, hp, hf⟩ hc
    exact ⟨rfl, change hp hc, hc.follows hf⟩

/-- A property kept by every change is kept by programs that use common operations only. -/
theorem Closed.ofInvariant {rules : Rules} {P : Session σ → Prop}
    (common : ∀ op, rules.uses op → op.IsCommon) (blanks : ¬ rules.blanks)
    (change : ∀ {s f}, P s → Change rules.custom s f → P (f s)) :
    Closed rules.custom (Invariant rules P) where
  toStable := .ofInvariant change
  other := fun _ hu hn => absurd (common _ hu) hn
  blanked := fun hb => absurd hb blanks

end LineShell
