import LineShell.Proofs.Inputs
import LineShell.Proofs.Later

/-!
# Every run advances

The actions of a shell lead to later states, one by one along their definitions; a program does by
induction on it, and the programs that it leads to by induction on the depth.
-/

namespace LineShell

open Act Session

variable {σ : Type} {s t : Session σ} {depth : Nat}

theorem Session.Aside.core (h : s.Aside t) : t.core = s.core := by
  obtain ⟨_, _, _, _, _, _, rfl⟩ := h
  rfl

/-! ### Actions without programs -/

namespace Act

theorem aloof_print (template : String) (args : List Datum) :
    (Session.print template args).Aloof s := by
  unfold Session.print
  split
  · rfl
  · split <;> rfl

theorem aloof_remember (line : String) : (Session.remember line).Aloof s := by
  simp only [Session.remember, Aloof, result_get_bind, result_modify_bind]
  split
  · rfl
  · rfl
  · exact core_log ..

theorem aloof_requestedSettings (o : Options) :
    (requestedSettings o : Act σ Settings).Aloof s := by
  refine Aloof.bind ?_ fun _ _ => rfl
  simp only [namedSettings, Aloof, result_get_bind]
  split
  · rfl
  · split
    · rfl
    · split <;> rfl

theorem aloof_openHistory (settings : Settings) : (openHistory settings).Aloof s := by
  simp only [openHistory, Aloof, result_get_bind]
  split
  · rfl
  · rfl
  · simp only [loadHistory, result_get_bind, result_modify_bind]
    split
    · rfl
    · exact core_log ..
    · rfl

theorem aloof_checkLevel (settings : Settings) : (checkLevel settings).Aloof s := by
  unfold checkLevel
  split <;> rfl

theorem aloof_start (argv : List String) : (Session.start argv).Aloof s := by
  unfold Session.start
  split
  · rfl
  · split
    · rfl
    · split
      · rfl
      · refine (aloof_requestedSettings _).bind fun settings t => ?_
        refine Aloof.bind (m := modify _) rfl fun _ u => ?_
        refine (aloof_checkLevel settings).bind fun _ v => ?_
        exact (aloof_openHistory settings).bind fun _ _ => rfl

theorem aloof_closeDown : (closeDown : Act σ Unit).Aloof s := by
  simp only [closeDown, Aloof, result_modify_bind, result_get_bind]
  have checked := aloof_checkLevel (s := s.leaveScreen) s.leaveScreen.host.settings
  have ended : (checkLevel s.leaveScreen.host.settings >>= fun _ =>
      (modify fun s => { s with loop := none } : Act σ PUnit)).Aloof s.leaveScreen :=
    checked.bind fun _ _ => rfl
  exact ended

theorem aloof_attach (descriptor : Nat) : (attach descriptor).Aloof s :=
  (aside_attach descriptor s).core

theorem aloof_detach : (detach : Act σ Bool).Aloof s := (aside_detach s).core

theorem aloof_recallOlder : (Session.recallOlder : Act σ Unit).Aloof s := by
  simp only [Session.recallOlder, Aloof, result_get_bind, result_modify_bind]
  split <;> rfl

theorem advances_uninstall : (adoptBridge s.bridge.uninstall).Advances s := by
  have reported : ∀ (lines : List String) (t : Session σ),
      (lines.foldl reportLine t).core = t.core := fun lines t => core_foldl core_reportLine t lines
  have logged : (Session.logAll (s.bridge.uninstall.lines.foldl reportLine
      { s with bridge := s.bridge.uninstall.bridge }) s.bridge.uninstall.events).core =
        ({ s with bridge := s.bridge.uninstall.bridge } : Session σ).core :=
    (core_logAll ..).trans (reported _ _)
  refine Advances.bind (m := modify _) ((later_uninstall s).trans (.of_core logged))
    fun _ _ _ => ?_
  split
  · exact advances_fail _
  · exact advances_pure _

theorem advances_setMenu (menu : Option (List (Command.Entry (Program σ)))) :
    (Session.setMenu menu).Advances s := by
  unfold Session.setMenu menuTable
  refine Advances.bind ?_ fun table t _ => ?_
  · split
    · exact advances_pure _
    · split
      · exact advances_pure _
      · exact advances_fail _
  · simp only [offerMenu, advances_get_bind]
    split
    · refine Advances.bind (m := modify _) ⟨⟨[], rfl, .still⟩, id⟩ fun _ _ _ => ?_
      exact advances_pure _
    · exact advances_modify_bind (core_log ..) (advances_pure _)

end Act

/-! ### Requests and commands -/

section

variable (calls : ∀ (p : Program σ) s, (p.exec depth).Advances s)

include calls

namespace Act

/-- The request is over before its callback is run. -/
theorem advances_release (answer : String) :
    (Session.release (Program.exec depth) answer).Advances s := by
  simp only [Session.release, advances_get_bind]
  cases waiting : s.request with
  | none => exact advances_pure _
  | some r =>
      refine Advances.bind (m := modify _) (later_answered waiting answer) fun _ t _ => ?_
      cases r.callback with
      | none => exact advances_pure _
      | some callback => exact (calls _ _).bind fun _ _ _ => advances_pure _

theorem advances_dispatch (line : String) :
    (Session.dispatch (Program.exec depth) line).Advances s := by
  unfold Session.dispatch
  split
  · exact advances_pure _
  · rename_i i _
    simp only [advances_get_bind]
    split
    · exact advances_modify rfl
    · refine advances_modify_bind (core_log ..) ((calls _ _).outcome_bind fun r t _ => ?_)
      split
      · exact advances_pure _
      · exact advances_modify (core_commandFailed ..)
      · exact advances_throw _

theorem advances_completeLine (line : Option String) :
    (completeLine (Program.exec depth) line).Advances s := by
  unfold completeLine
  split
  · exact advances_modify (core_quit _)
  · split
    · exact advances_pure _
    · refine (advances_release calls _).bind fun answered t _ => ?_
      split
      · exact advances_pure _
      · exact (aloof_remember _).advances.bind fun _ _ _ => advances_dispatch calls _

theorem advances_consume (line : Option String) :
    (consume (Program.exec depth) line).Advances s := by
  simp only [consume, advances_get_bind]
  split
  · exact advances_completeLine calls line
  · exact (calls _ _).bind fun _ _ _ => advances_pure _

/-! ### Keys -/

theorem advances_collect (g : String → Nat → Program σ) (text : String) (left number : Nat) :
    (collect (Program.exec depth) g text left number).Advances s := by
  induction left generalizing number s with
  | zero => exact advances_modify_bind (core_log ..) (advances_pure _)
  | succ left ih =>
      refine (calls _ _).bind fun reply t _ => ?_
      split
      · exact (ih (number + 1)).bind fun _ _ _ => advances_pure _
      · exact advances_pure _

theorem advances_completeWord (l : Edit.Line) :
    (completeWord (Program.exec depth) l).Advances s := by
  unfold completeWord complete
  refine advances_modify_bind rfl (Advances.bind ?_ fun found t _ => ?_)
  · unfold candidates
    split
    · exact advances_modify_bind rfl (advances_pure _)
    · unfold completeArgument
      simp only
      split
      · exact advances_pure _
      · simp only [advances_get_bind]
        split
        · exact advances_pure _
        · exact advances_modify_bind rfl (advances_collect calls _ _ _ _)
  · split
    · exact advances_modify_bind rfl (advances_pure _)
    · exact advances_pure _

theorem advances_showCompletions (word : String) (found : List String) :
    (showCompletions (Program.exec depth) word found).Advances s := by
  simp only [showCompletions, advances_get_bind]
  split
  · exact (calls _ _).bind fun _ _ _ => advances_modify rfl
  · exact advances_modify_bind rfl (advances_modify rfl)

theorem advances_completeKey : (completeKey (Program.exec depth)).Advances s := by
  simp only [completeKey, advances_get_bind]
  split
  · exact advances_pure _
  · refine (advances_completeWord calls _).bind fun found t _ => ?_
    split
    · exact advances_pure _
    · exact advances_modify rfl
    · split
      · exact advances_showCompletions calls _ _
      · exact advances_modify rfl

theorem advances_acceptLine : (acceptLine (Program.exec depth)).Advances s := by
  simp only [acceptLine, advances_get_bind]
  refine advances_modify_bind rfl (((advances_consume calls _).ensuring ?_).bind fun _ _ _ => ?_)
  · exact fun _ => rfl
  · exact advances_modify rfl

theorem advances_endOfInput : (endOfInput (Program.exec depth)).Advances s := by
  refine advances_modify_bind rfl (((advances_consume calls _).ensuring ?_).bind fun _ _ _ => ?_)
  · exact fun _ => rfl
  · exact advances_modify rfl

theorem advances_pressKey (k : Edit.Key) : (pressKey (Program.exec depth) k).Advances s := by
  simp only [pressKey, advances_get_bind]
  split
  · exact advances_pure _
  · split
    · exact advances_modify rfl
    · refine advances_modify_bind rfl ?_
      split
      · exact advances_endOfInput calls
      · split
        · exact advances_modify rfl
        · unfold specialKey
          split
          · exact advances_acceptLine calls
          · exact advances_acceptLine calls
          · exact advances_completeKey calls
          · exact aloof_recallOlder.advances
          · exact advances_modify rfl
          · exact advances_modify (core_log ..)
          · exact advances_pure _

theorem advances_deliverKey (k : Edit.Key) : (deliverKey (Program.exec depth) k).Advances s := by
  unfold deliverKey
  split
  · exact advances_modify rfl
  · exact advances_pressKey calls k

theorem advances_handleKeys (keys : List Edit.Key) :
    (handleKeys (Program.exec depth) keys).Advances s :=
  (Advances.forM (fun k _ => advances_deliverKey calls k) keys).bind fun _ _ _ =>
    advances_modify rfl

theorem advances_feed (text : List Char) : (feed (Program.exec depth) text).Advances s := by
  simp only [feed, advances_get_bind]
  split
  · refine Advances.forM (fun c t => ?_) text
    simp only [feedChar, advances_get_bind]
    split
    · split
      · exact advances_modify rfl
      · exact (advances_pressKey calls _).bind fun _ _ _ => advances_modify rfl
    · split
      · exact advances_fail _
      · refine advances_modify_bind rfl ?_
        exact (advances_handleKeys calls _).ensuring fun _ => rfl
  · exact advances_pure _

/-! ### Operations and programs -/

theorem advances_tearDown : (tearDown (Program.exec depth)).Advances s := by
  simp only [tearDown, advances_get_bind]
  split
  · exact advances_pure _
  · refine advances_modify_bind rfl ((advances_release calls "").bind fun _ _ _ => ?_)
    refine aloof_detach.advances.bind fun _ t _ => ?_
    simp only [advances_get_bind]
    exact advances_uninstall.bind fun _ _ _ => aloof_closeDown.advances

theorem advances_perform (op : Operation) :
    (Session.perform (Program.exec depth) op).Advances s := by
  have changed : ∀ {f : Session σ → Session σ} (reply : Reply), (f s).core = s.core →
      (do modify f; return reply : Act σ Reply).Advances s :=
    fun reply h => advances_modify_bind h (advances_pure reply)
  cases op with
  | feed text => exact (advances_feed calls _).bind fun _ _ _ => advances_pure _
  | addHistory line => exact (aloof_remember line).advances.bind fun _ _ _ => advances_pure _
  | line text => exact (advances_completeLine calls text).bind fun _ _ _ => advances_pure _
  | dispatch line => exact (advances_dispatch calls line).bind fun _ _ _ => advances_pure _
  | print template args =>
      exact (aloof_print template args).advances.bind fun _ _ _ => advances_pure _
  | release text => exact (advances_release calls text).bind fun _ _ _ => advances_pure _
  | start argv => exact (aloof_start argv).advances.bind fun _ _ _ => advances_pure _
  | attach descriptor => exact (aloof_attach descriptor).advances.bind fun _ _ _ => advances_pure _
  | detach => exact aloof_detach.advances.bind fun _ _ _ => advances_pure _
  | tearDown => exact (advances_tearDown calls).bind fun _ _ _ => advances_pure _
  | dump bytes => exact changed _ (core_dump ..)
  | printMenu => exact changed _ (core_printMenu ..)
  | quit => exact changed _ (core_quit ..)
  | hangUp => exact changed _ (core_hangUp ..)
  | setPrompt prompt => exact changed _ (core_setPrompt ..)
  | log event => exact changed _ (core_log ..)
  | signal signal =>
      exact advances_modify_bind (core_receiveSignal ..) (advances_get_bind.2 (advances_pure _))
  | _ => exact changed _ rfl

theorem advances_run : ∀ (p : Program σ) (s : Session σ), (p.run (Program.exec depth)).Advances s
  | .done _, _ => advances_pure _
  | .fail _, _ => advances_throw _
  | .consult next, s => advances_run (next s.programs) s
  | .note change next, s =>
    Advances.bind (m := modify _) ⟨⟨[], rfl, .still⟩, id⟩ fun _ t _ => advances_run next t
  | .inspect next, s => advances_run (next s.settings s.colours) s
  | .perform op next, _ =>
    (advances_perform calls op).bind fun reply t _ => advances_run (next reply) t
  | .request label message callback data next, s =>
    Advances.bind (m := modify _) (later_requestInput s label message callback data)
      fun _ t _ => advances_run next t
  | .setMenu menu next, _ =>
    (advances_setMenu menu).bind fun taken t _ => advances_run (next taken) t
  | .suspended body next, s => by
    refine Advances.bind ?_ fun _ t _ => advances_run next t
    simp only [suspended, advances_get_bind]
    split
    · refine advances_modify_bind rfl ((advances_run body _).ensuring ?_)
      exact fun _ => rfl
    · exact advances_run body s
  | .attempt body next, s => (advances_run body s).outcome_bind fun r t _ => advances_run (next r) t

end Act

end

theorem Act.advances_exec (depth : Nat) (p : Program σ) (s : Session σ) :
    (p.exec depth).Advances s := by
  induction depth generalizing p s with
  | zero => exact advances_fail _
  | succ depth ih => exact advances_run ih p s

end LineShell
