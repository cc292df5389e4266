import LineShell.Proofs.Isolation

/-!
# Requests that are left over

The request that is waiting when a shell is torn down is answered with nothing, once. What its
callback asks for then is not answered any more: the message is taken away with all others, but the
request stays, and the next session begins with it behind an ordinary prompt.
-/

namespace LineShell

open Act Edit Session

variable {σ : Type} {s t u v w : Session σ}

/-! ### What tearing down and starting leave alone -/

theorem aloof_adoptBridge (o : SignalBridge.Outcome) (s : Session σ) :
    ((adoptBridge o).result s).2.request = s.request ∧
      ((adoptBridge o).result s).2.journal = s.journal := by
  let adopted : Session σ := { s with bridge := o.bridge }
  have logged : ((o.lines.foldl reportLine adopted).logAll o.events).core = adopted.core :=
    (core_logAll ..).trans (core_foldl core_reportLine adopted o.lines)
  have kept := And.intro (request_of_core logged) (journal_of_core logged)
  simp only [adoptBridge, result_modify_bind]
  split <;> exact kept

/-- Behind the answer to the request that is waiting no request is touched. -/
theorem aloof_releaseRest (s : Session σ) :
    (releaseRest.result s).2.request = s.request ∧
      (releaseRest.result s).2.journal = s.journal := by
  have detached : (detach.result s).2.core = s.core := aloof_detach
  rw [releaseRest, result_bind]
  rcases hd : detach.result s with ⟨_ | _, t⟩ <;> rw [hd] at detached
  · exact ⟨request_of_core detached, journal_of_core detached⟩
  · obtain ⟨request, journal⟩ := aloof_adoptBridge t.bridge.uninstall t
    simp only [result_get_bind]
    rw [result_bind]
    rcases ha : (adoptBridge t.bridge.uninstall).result t with ⟨_ | _, u⟩ <;>
      rw [ha] at request journal
    · exact ⟨request.trans (request_of_core detached), journal.trans (journal_of_core detached)⟩
    · have closed : (closeDown.result u).2.core = u.core := aloof_closeDown
      exact ⟨(request_of_core closed).trans (request.trans (request_of_core detached)),
        (journal_of_core closed).trans (journal.trans (journal_of_core detached))⟩

/-- Where the request has been answered, a run leaves what the rest of the tearing down does. -/
theorem left_of_run {events : List (List (Occurrence σ))} {ended : Except Interrupt Unit}
    {answered : Bool} (begun : s.loop.isSome = true)
    (body : (loopBody events).result s.served = (ended, u)) (fresh : u.tornDown = false)
    (answer : (release Program.execute "").result u.closing = (.ok answered, v)) :
    ((run events).result s).2 = (releaseRest.result v).2 := by
  rw [result_run begun body, result_endService_of_fresh fresh, result_bind, answer]
  simp only
  rcases releaseRest.result v with ⟨_ | _, x⟩ <;> rfl

theorem request_of_start {argv args : List String}
    (started : (start argv).result t = (.ok args, w)) : w.request = t.request := by
  have aloof := aloof_start (s := t) argv
  rw [Aloof, started] at aloof
  exact request_of_core aloof

theorem visiblePrompt_of_start {argv args : List String} (silent : t.editor.message = none)
    (started : (start argv).result t = (.ok args, w)) :
    w.editor.visiblePrompt = w.editor.prompt := by
  have message : w.editor.message = t.editor.message :=
    congrArg (·.message) (unstarted_of_start started).1
  rw [Editor.visiblePrompt, message, silent]
  rfl

/-! ### The answer at the end -/

theorem advances_receive {depth : Nat} (r : PendingRequest σ) (answer : String) :
    (r.receive (Program.exec depth) answer).Advances s := by
  unfold PendingRequest.receive
  split
  · exact (advances_exec depth _ _).bind fun _ _ _ => advances_pure _
  · exact advances_pure _

theorem turns_of_receive {depth : Nat} {r : PendingRequest σ} {answer : String}
    (received : (r.receive (Program.exec depth) answer).result (s.answered r answer) = (.ok ⟨⟩, t)) :
    ∃ inner, t.journal = inner ++ .answered r answer :: s.journal ∧ Turns none inner t.request := by
  have later : Session.Later (s.answered r answer)
      ((r.receive (Program.exec depth) answer).result (s.answered r answer)).2 :=
    advances_receive r answer
  rw [received] at later
  exact later.turns

/-- A run that has answered the request that is waiting ends as the loop did, unless the log has no
level, and no message is left. -/
theorem silent_of_run {events : List (List (Occurrence σ))} {ended : Except Interrupt Unit}
    {answered : Bool} (begun : s.loop.isSome = true)
    (body : (loopBody events).result s.served = (ended, u)) (fresh : u.tornDown = false)
    (answer : (release Program.execute "").result u.closing = (.ok answered, v))
    (granted : v.detachFault = none) :
    ∃ t, (run events).result s =
        (v.host.settings.levelFailure.elim ended fun f => .error (.failure f), t) ∧
      t.editor.message = none ∧ t.editor.saved = [] := by
  have law := teardownLaw_of_run begun events
  rw [body] at law
  cases level : v.host.settings.levelFailure with
  | none =>
      obtain ⟨t, ran, released⟩ := law.released fresh answered v answer granted level
      exact ⟨t, ran, released.editor.2.2⟩
  | some f =>
      obtain ⟨t, ran, disarmed⟩ := law.unranked fresh answered v f answer granted level
      exact ⟨t, ran, disarmed.editor.2.2⟩

/-- What is left over when a shell has been torn down, the loop having stopped in `u`, and the
request that was waiting having been answered with nothing in `v`. -/
structure LeftoverLaw (u v t : Session σ) : Prop where
  /-- No message is left. -/
  message : t.editor.message = none ∧ t.editor.saved = []
  /-- Behind the answer no request is touched. -/
  request : t.request = v.request ∧ t.journal = v.journal
  /-- If no request was waiting, none is left. -/
  idle : u.request = none → t.request = none
  /-- Otherwise its callback is run once, with nothing, the request being over. -/
  answered : ∀ r, u.request = some r →
    (r.receive Program.execute "").result (u.closing.answered r "") = (.ok ⟨⟩, v) ∧
      (u.closing.answered r "").request = none
  /-- The journal tells this answer, and behind it each request in its turn: those that were made
  meanwhile are, in order, those that have been answered meanwhile and the one that is left. -/
  waiting : ∀ r, u.request = some r → ∃ inner,
    t.journal = inner ++ .answered r "" :: u.journal ∧ Turns none inner t.request ∧
      begun inner = settled inner ++ t.request.toList
  /-- The next session begins with that request behind an ordinary prompt. -/
  next : ∀ argv args w, (start argv).result t = (.ok args, w) →
    w.request = t.request ∧ w.editor.visiblePrompt = w.editor.prompt
  /-- So its first line is the answer, -/
  taken : ∀ argv args w r, (start argv).result t = (.ok args, w) → t.request = some r →
    ∀ depth line, line ≠ "" → (completeLine (Program.exec depth) (some line)).result w =
      (r.receive (Program.exec depth) line).result (w.answered r line)
  /-- unless there is none; then it is run as a command. -/
  run : ∀ argv args w, (start argv).result t = (.ok args, w) → t.request = none →
    ∀ depth line, line ≠ "" → ¬ (w.HistoryBlocked ∧ w.editor.history.accepts line = true) →
    ∃ x, (remember line).result w = (.ok (w.editor.history.accepts line), x) ∧
      (completeLine (Program.exec depth) (some line)).result w =
        (dispatch (Program.exec depth) line).result x

/-- Whatever the callback of the request does that is waiting when the loop of a shell stops, as long
as it is not given up: no message is left, and of the requests only one that was made during the
answer and has not been answered. -/
theorem leftoverLaw_of_run {events : List (List (Occurrence σ))} {ended : Except Interrupt Unit}
    {answered : Bool} (begun : s.loop.isSome = true)
    (body : (loopBody events).result s.served = (ended, u)) (fresh : u.tornDown = false)
    (answer : (release Program.execute "").result u.closing = (.ok answered, v))
    (granted : v.detachFault = none) :
    ∃ t, (run events).result s =
        (v.host.settings.levelFailure.elim ended fun f => .error (.failure f), t) ∧
      LeftoverLaw u v t := by
  obtain ⟨t, ran, message, saved⟩ := silent_of_run begun body fresh answer granted
  have left := left_of_run begun body fresh answer
  rw [ran] at left
  obtain ⟨request, journal⟩ := aloof_releaseRest v
  rw [← left] at request journal
  -- The answer is the callback's run, in the state in which the request is over.
  have received : ∀ r, u.request = some r →
      (r.receive Program.execute "").result (u.closing.answered r "") = (.ok ⟨⟩, v) :=
    fun r waiting => result_receive_of_release (s := u.closing) waiting answer
  refine ⟨t, ran, ?_⟩
  constructor
  case message => exact ⟨message, saved⟩
  case request => exact ⟨request, journal⟩
  case idle =>
    intro idle
    have kept : (release Program.execute "").result u.closing = (.ok false, u.closing) :=
      result_release_of_idle (s := u.closing) idle ""
    cases answer.symm.trans kept
    exact request.trans idle
  case answered => exact fun r waiting => ⟨received r waiting, rfl⟩
  case waiting =>
    intro r waiting
    obtain ⟨inner, told, turns⟩ := turns_of_receive (received r waiting)
    rw [← request] at turns
    -- Nothing was waiting when the callback began, so the balance has no other request in it.
    exact ⟨inner, journal.trans told, turns, turns.balance⟩
  case next =>
    intro argv args w started
    exact ⟨request_of_start started, visiblePrompt_of_start message started⟩
  case taken =>
    intro argv args w r started waiting depth line nonempty
    have next : w.request = some r := (request_of_start started).trans waiting
    exact ((lineLaw (Program.exec depth) line w).answer nonempty r next).1
  case run =>
    intro argv args w started idle depth line nonempty free
    have next : w.request = none := (request_of_start started).trans idle
    obtain ⟨x, remembered, -, -, ran⟩ :=
      (lineLaw (Program.exec depth) line w).command nonempty next free
    exact ⟨x, remembered, ran⟩

/-- A shell that asks for two codes, one after the other. -/
def inquired : Session (List String) :=
  (((inquiry 2).exec 1).result inquiringShell.beginRun).2

/-- The first code is given at the end. The second one is asked for then, and the next session takes
its first line for it instead of running the command. -/
theorem command_taken_for_code : ∃ t r args w, (run []).result inquired = (.ok ⟨⟩, t) ∧
    t.editor.message = none ∧ t.request = some r ∧ (start ["x"]).result t = (.ok args, w) ∧
    w.editor.visiblePrompt = w.editor.prompt ∧
    (completeLine (Program.exec 4) (some "ask")).result w =
      (r.receive (Program.exec 4) "ask").result (w.answered r "ask") := by
  let body := (loopBody []).result inquired.served
  let answer := (release Program.execute "").result body.2.closing
  let ran := (run []).result inquired
  have left : inquired.loop.isSome = true ∧ body.1.isOk = true ∧ body.2.tornDown = false ∧
      answer.1.isOk = true ∧ answer.2.detachFault.isNone = true ∧
      answer.2.host.settings.levelFailure.isNone = true ∧ ran.2.request.isSome = true ∧
      ((start ["x"]).result ran.2).1.isOk = true := by
    decide +kernel
  obtain ⟨begun, ended, fresh, answered, granted, ranked, waiting, started⟩ := left
  rcases hb : body with ⟨_ | _, u⟩ <;> rw [hb] at ended
  · cases ended
  rw [hb] at fresh
  have last : answer = (release Program.execute "").result u.closing := by
    simp only [answer, hb]
  rcases ha : answer with ⟨_ | b, v⟩ <;> rw [ha] at answered
  · cases answered
  rw [ha] at granted ranked
  obtain ⟨t, ht, law⟩ := leftoverLaw_of_run begun hb fresh (last.symm.trans ha)
    (Option.isNone_iff_eq_none.1 granted)
  rw [Option.isNone_iff_eq_none.1 ranked, Option.elim_none] at ht
  have left : ran.2 = t := congrArg (·.2) ht
  rw [left] at waiting started
  obtain ⟨r, hr⟩ := Option.isSome_iff_exists.1 waiting
  rcases hs : (start ["x"]).result t with ⟨_ | args, w⟩ <;> rw [hs] at started
  · cases started
  exact ⟨t, r, args, w, ht, law.message.1, hr, hs, (law.next _ _ _ hs).2,
    law.taken _ _ _ r hs hr 4 "ask" (by decide)⟩

end LineShell
