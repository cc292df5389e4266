import LineShell.Proofs.Consumers
import LineShell.Proofs.Inputs
import LineShell.Session.EventLoop

/-!
# What a shell gives back

When the event loop of a shell has stopped, the shell is torn down: the request that is waiting is
answered with nothing, the input is given up, the handlers of the signals are taken away, and then
editor, log and loop are released. A callback or a loop that fails on the way ends this, and so does
a log level that is none; what comes behind is not released any more.
-/

namespace LineShell

open Act Session

variable {σ : Type} {s t u : Session σ}

/-! ### The event loop advances -/

namespace Act

theorem advances_callback {m : Act σ Unit} (h : m.Advances s) : (callback m).Advances s := by
  refine h.outcome_bind fun r t _ => ?_
  split
  · exact advances_throw _
  · exact advances_pure _

theorem advances_readInput (source : Input.Source) : (readInput source : Act σ Unit).Advances s := by
  simp only [readInput, advances_get_bind]
  refine advances_modify_bind rfl ?_
  split
  · exact (advances_exec _ _ _).bind fun _ _ _ => advances_pure _
  · exact advances_pure _
  · exact advances_modify (core_hangUp _)

theorem advances_drain (fuel : Nat) : (drain fuel : Act σ Unit).Advances s := by
  induction fuel generalizing s with
  | zero => exact advances_pure _
  | succ fuel ih =>
      simp only [drain, advances_get_bind]
      split
      · exact advances_pure _
      · split
        · exact advances_pure _
        · exact (advances_callback (advances_readInput _)).bind fun _ _ _ => ih

theorem advances_turn (occurrences : List (Occurrence σ)) : (turn occurrences).Advances s := by
  refine advances_callback (Advances.forM (fun o t => ?_) occurrences)
  cases o with
  | bytes data => exact advances_modify rfl
  | signal signal => exact advances_modify (core_receiveSignal ..)
  | program p => exact (advances_exec _ _ _).bind fun _ _ _ => advances_pure _

theorem advances_turns (events : List (List (Occurrence σ))) : (turns events).Advances s := by
  induction events generalizing s with
  | nil =>
      simp only [turns, advances_get_bind]
      split
      · exact advances_pure _
      · split
        · exact advances_callback (advances_readInput _)
        · exact advances_modify (core_quit _)
  | cons occurrences rest ih =>
      simp only [turns, advances_get_bind]
      split
      · exact advances_pure _
      · refine (advances_turn _).bind fun _ t _ => ?_
        simp only [advances_get_bind]
        exact (advances_drain _).bind fun _ _ _ => ih

theorem advances_loopBody (events : List (List (Occurrence σ))) : (loopBody events).Advances s := by
  simp only [loopBody, advances_get_bind]
  split
  · split
    · exact advances_turn _
    · exact advances_pure _
  · exact (advances_drain _).bind fun _ _ _ => advances_turns _

end Act

/-! ### Tearing a shell down -/

def Session.served (s : Session σ) : Session σ :=
  { s with bridge := {
      installed := Signal.handled
      loop := some { registered := Signal.handled } } }

def Session.closing (s : Session σ) : Session σ :=
  { s with loop := s.loop.map fun l => { l with stopping := false }, tornDown := true }

/-- All that a shell holds has been given back, the input being that of `s`. -/
structure Session.Released (s t : Session σ) : Prop where
  input : s.InputFreed t
  signals : t.bridge.installed = [] ∧ ∃ loop, t.bridge.loop = some loop ∧ loop.registered = []
  editor : t.editor.installed = false ∧ t.editor.decoder = {} ∧ t.editor.message = none ∧
    t.editor.saved = []
  log : t.host.screenLog = false ∧ ∃ format, t.host.log = some (format, false)
  loop : t.loop = none

/-- All but the log and the loop has been given back, the input being that of `s`. -/
structure Session.Disarmed (s t : Session σ) : Prop where
  input : s.InputFreed t
  signals : t.bridge.installed = [] ∧ ∃ loop, t.bridge.loop = some loop ∧ loop.registered = []
  editor : t.editor.installed = false ∧ t.editor.decoder = {} ∧ t.editor.message = none ∧
    t.editor.saved = []
  log : t.host.screenLog = false ∧ t.host.log = s.host.log
  loop : t.loop = s.loop

theorem result_beginService (begun : s.loop.isSome = true) :
    beginService.result s = (.ok ⟨⟩, s.served) := by
  simp only [beginService, result_get_bind]
  rw [if_neg (by simp [Option.isNone_iff_eq_none, Option.isSome_iff_ne_none.1 begun])]
  rfl

/-- Tearing a shell down, behind the answer to the request. -/
def releaseRest : Act σ Unit := do
  let _ ← detach
  adoptBridge (← get).bridge.uninstall
  closeDown

/-- A loop that fails to stop watching the input ends the release. -/
theorem result_releaseRest_of_fault {f : Failure} (fault : s.detachFault = some f) :
    releaseRest.result s = (.error (.failure f), (detach.result s).2) := by
  have refused := fst_result_detach s
  rw [fault] at refused
  rw [releaseRest, result_bind]
  rcases hd : detach.result s with ⟨r, t⟩
  rw [hd] at refused
  cases refused
  rfl

theorem result_adoptBridge_of_quiet (b : SignalBridge) (s : Session σ) :
    (adoptBridge { bridge := b }).result s = (.ok ⟨⟩, { s with bridge := b }) := rfl

/-- Behind the input and the signal handlers there is only the closing down. -/
theorem result_releaseRest_of_granted (sound : s.bridge.Sound) (granted : s.detachFault = none) :
    ∃ t, releaseRest.result s = closeDown.result t ∧ s.InputFreed t ∧
      (t.bridge.installed = [] ∧ ∃ loop, t.bridge.loop = some loop ∧ loop.registered = []) ∧
      t.host.settings = s.host.settings ∧ t.host.log = s.host.log ∧ t.loop = s.loop := by
  have detached := fst_result_detach s
  have freed := inputFreed_detach s
  obtain ⟨reader, writes, midRow, errors, framed⟩ := s.detach_frame
  rw [granted] at detached
  rw [releaseRest, result_bind]
  rcases hd : detach.result s with ⟨r, t⟩
  rw [hd] at detached freed framed
  cases detached
  have kept : t.bridge = s.bridge := congrArg (·.bridge) framed
  obtain ⟨loop, registered, -, gone⟩ := (kept.symm ▸ sound : t.bridge.Sound).uninstall
  refine ⟨{ t with bridge := { t.bridge with installed := [], loop := some loop } }, ?_,
    ⟨freed.detached, freed.restored⟩, ⟨rfl, loop, rfl, registered⟩,
    congrArg (·.host.settings) framed, congrArg (·.host.log) framed, congrArg (·.loop) framed⟩
  simp only [result_get_bind, gone]
  rw [result_bind, result_adoptBridge_of_quiet]

theorem result_closeDown_of_none (ranked : s.host.settings.levelFailure = none) :
    closeDown.result s = (.ok ⟨⟩, { s.leaveScreen with loop := none }) := by
  have checked : (checkLevel s.leaveScreen.host.settings).result s.leaveScreen =
      (.ok ⟨⟩, s.leaveScreen) := result_checkLevel_of_none ranked _
  simp only [closeDown, result_modify_bind, result_get_bind]
  rw [result_bind, checked]
  rfl

theorem result_closeDown_of_some {f : Failure} (unranked : s.host.settings.levelFailure = some f) :
    closeDown.result s = (.error (.failure f), s.leaveScreen) := by
  have checked : (checkLevel s.leaveScreen.host.settings).result s.leaveScreen =
      (.error (.failure f), s.leaveScreen) := result_checkLevel_of_some unranked _
  simp only [closeDown, result_modify_bind, result_get_bind]
  rw [result_bind, checked]

/-- With the name of a level nothing fails any more. -/
theorem released_releaseRest (sound : s.bridge.Sound) (granted : s.detachFault = none)
    (ranked : s.host.settings.levelFailure = none) :
    ∃ t, releaseRest.result s = (.ok ⟨⟩, t) ∧ s.Released t := by
  obtain ⟨t, rest, input, signals, settings, -, -⟩ := result_releaseRest_of_granted sound granted
  refine ⟨_, rest.trans (result_closeDown_of_none (settings ▸ ranked)), ?_⟩
  refine ⟨⟨input.detached, input.restored⟩, signals, ⟨rfl, rfl, rfl, rfl⟩, ⟨rfl, ?_⟩, rfl⟩
  refine ⟨.ofSettings t.host.settings.log, ?_⟩
  have level : t.host.settings.levelFailure = none := settings ▸ ranked
  simp only [leaveScreen, configureLog, onEditor, level]

/-- Otherwise the log and the loop are not released. -/
theorem disarmed_releaseRest {f : Failure} (sound : s.bridge.Sound)
    (granted : s.detachFault = none) (unranked : s.host.settings.levelFailure = some f) :
    ∃ t, releaseRest.result s = (.error (.failure f), t) ∧ s.Disarmed t := by
  obtain ⟨t, rest, input, signals, settings, log, loop⟩ :=
    result_releaseRest_of_granted sound granted
  refine ⟨_, rest.trans (result_closeDown_of_some (settings ▸ unranked)), ?_⟩
  refine ⟨⟨input.detached, input.restored⟩, signals, ⟨rfl, rfl, rfl, rfl⟩, ⟨rfl, ?_⟩, loop⟩
  have level : t.host.settings.levelFailure = some f := settings ▸ unranked
  simp only [leaveScreen, configureLog, onEditor, level, log]

theorem result_endService_of_torn (torn : s.tornDown = true) :
    endService.result s = (.ok ⟨⟩, s.closing) := by
  simp only [endService, tearDown, result_modify_bind, result_get_bind, torn, if_true, closing]
  rw [result_pure, ← torn]

theorem result_endService_of_fresh (fresh : s.tornDown = false) :
    endService.result s =
      (do let _ ← release Program.execute ""; releaseRest : Act σ Unit).result s.closing := by
  simp only [endService, tearDown, result_modify_bind, result_get_bind, fresh]
  rfl

/-- A run ends as the loop does, unless the end of the service fails. -/
theorem result_run {events : List (List (Occurrence σ))} {ended : Except Interrupt Unit}
    (begun : s.loop.isSome = true) (body : (loopBody events).result s.served = (ended, u)) :
    (run events).result s =
      match endService.result u with
      | (.ok _, t) => (ended, t)
      | (.error i, t) => (.error i, t) := by
  simp only [run]
  rw [result_bind, result_beginService begun]
  simp only
  rw [result_bind, result_outcome, body]
  simp only
  rw [result_bind]
  rcases endService.result u with ⟨_ | _, t⟩
  · rfl
  · cases ended <;> rfl

/-- The bridge is sound when the request that is waiting at the end has been answered. -/
theorem sound_of_run {events : List (List (Occurrence σ))} {ended : Except Interrupt Unit}
    {v : Session σ} {answered : Except Interrupt Bool}
    (body : (loopBody events).result s.served = (ended, u))
    (answer : (release Program.execute "").result u.closing = (answered, v)) : v.bridge.Sound := by
  have served := advances_loopBody (s := s.served) events
  have closing := advances_release (s := u.closing) (advances_exec Program.depthLimit) ""
  rw [Advances, body] at served
  rw [Advances, show (release (Program.exec Program.depthLimit) "").result u.closing = _ from
    answer] at closing
  exact closing.sound (served.sound ⟨_, rfl, rfl, List.Subset.refl _⟩)

/-- Where neither the callback of the pending request nor the loop fails, all is released. -/
theorem released_of_run {events : List (List (Occurrence σ))} {ended : Except Interrupt Unit}
    {v : Session σ} {answered : Bool} (begun : s.loop.isSome = true)
    (body : (loopBody events).result s.served = (ended, u)) (fresh : u.tornDown = false)
    (answer : (release Program.execute "").result u.closing = (.ok answered, v))
    (granted : v.detachFault = none) (ranked : v.host.settings.levelFailure = none) :
    ∃ t, (run events).result s = (ended, t) ∧ v.Released t := by
  obtain ⟨t, ht, freed⟩ := released_releaseRest (sound_of_run body answer) granted ranked
  refine ⟨t, ?_, freed⟩
  rw [result_run begun body, result_endService_of_fresh fresh, result_bind, answer]
  simp only
  rw [ht]

/-- What a run of the event loop ends in, the loop itself having ended with `ended` in `u`. -/
structure TeardownLaw (run : Except Interrupt Unit × Session σ) (ended : Except Interrupt Unit)
    (u : Session σ) : Prop where
  /-- A shell is torn down once. -/
  again : u.tornDown = true → run = (ended, u.closing)
  /-- Where the callback of the request that is waiting is given up, nothing else is released. -/
  raised : u.tornDown = false → ∀ i v,
    (release Program.execute "").result u.closing = (.error i, v) → run = (.error i, v)
  /-- Where the loop fails to stop watching the input, the input is given up, but nothing else. -/
  watched : u.tornDown = false → ∀ answered v f,
    (release Program.execute "").result u.closing = (.ok answered, v) →
    v.detachFault = some f →
    ∃ t, run = (.error (.failure f), t) ∧ v.InputFreed t ∧ v.Aside t
  /-- Where the log cannot be set up again, its level being none, neither it nor the loop is
  released. -/
  unranked : u.tornDown = false → ∀ answered v f,
    (release Program.execute "").result u.closing = (.ok answered, v) →
    v.detachFault = none → v.host.settings.levelFailure = some f →
    ∃ t, run = (.error (.failure f), t) ∧ v.Disarmed t
  /-- Otherwise all is released, and the run ends as the loop did. -/
  released : u.tornDown = false → ∀ answered v,
    (release Program.execute "").result u.closing = (.ok answered, v) →
    v.detachFault = none → v.host.settings.levelFailure = none →
    ∃ t, run = (ended, t) ∧ v.Released t

/-- However the event loop of a shell ends, the shell is torn down by the law, whatever programs the
loop has run and whatever the callback of the request that is waiting does. -/
theorem teardownLaw_of_run (begun : s.loop.isSome = true) (events : List (List (Occurrence σ))) :
    TeardownLaw ((run events).result s) ((loopBody events).result s.served).1
      ((loopBody events).result s.served).2 := by
  rcases body : (loopBody events).result s.served with ⟨ended, u⟩
  constructor
  case again =>
    intro torn
    rw [result_run begun body, result_endService_of_torn torn]
  case raised =>
    intro fresh i v failed
    rw [result_run begun body, result_endService_of_fresh fresh, result_bind, failed]
  case watched =>
    intro fresh answered v f answer fault
    refine ⟨(detach.result v).2, ?_, inputFreed_detach v, aside_detach v⟩
    rw [result_run begun body, result_endService_of_fresh fresh, result_bind, answer]
    simp only
    rw [result_releaseRest_of_fault fault]
  case unranked =>
    intro fresh answered v f answer granted unranked
    obtain ⟨t, ht, disarmed⟩ := disarmed_releaseRest (sound_of_run body answer) granted unranked
    refine ⟨t, ?_, disarmed⟩
    rw [result_run begun body, result_endService_of_fresh fresh, result_bind, answer]
    simp only
    rw [ht]
  case released => exact fun fresh answered v => released_of_run begun body fresh

/-- A shell that reads a terminal and asks for input, the callback being about to fail. -/
def askingTerminal : Session Unit :=
  let s : Session Unit := { (bareShell [] ()).beginRun with channel := { isTerminal := true } }
  let failing := Program.fail (.failure (.raised .runtime "lost"))
  ((attach 0).result s).2.requestInput "box" "Code:" (some fun _ _ => failing) (.text "")

/-- The failure leaves the terminal as the shell uses it, attached, and the loop open. -/
theorem terminal_left_by_failure : ∃ i v, (run []).result askingTerminal = (.error i, v) ∧
    v.input.isSome = true ∧ v.channel.mode = .immediate ∧
    v.bridge.installed = [.interrupt, .terminate] ∧ v.loop.isSome = true := by
  let body := (loopBody []).result askingTerminal.served
  let answer := (release Program.execute "").result body.2.closing
  have left : askingTerminal.loop.isSome = true ∧ body.2.tornDown = false ∧
      answer.1.isOk = false ∧ answer.2.input.isSome = true ∧
      answer.2.channel.mode = .immediate ∧
      answer.2.bridge.installed = [.interrupt, .terminate] ∧ answer.2.loop.isSome = true := by
    decide +kernel
  obtain ⟨begun, fresh, failed, kept⟩ := left
  rcases ha : answer with ⟨i | _, v⟩
  · rw [ha] at kept
    exact ⟨i, v, (teardownLaw_of_run begun []).raised fresh i v ha, kept⟩
  · rw [ha] at failed
    cases failed

end LineShell
