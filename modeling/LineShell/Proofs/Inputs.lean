import LineShell.Proofs.Editor
import LineShell.Proofs.Lockstep

/-!
# Taking an input and giving it up

Both concern only the input, and what they log. An input that is given up has the mode of its
terminal put back, also where the loop fails to stop watching it.
-/

namespace LineShell

open Act Session

variable {σ : Type}

/-- One state is as another but for the input and what is written. -/
def Session.Aside (s t : Session σ) : Prop :=
  ∃ input reader channel writes midRow errors, t = { s with
    input, reader, channel
    editor := { s.editor with writes, midRow }
    host := { s.host with errors } }

theorem aside_attach (descriptor : Nat) (s : Session σ) :
    s.Aside ((attach descriptor).result s).2 := by
  simp only [attach, result_get_bind]
  split
  · exact ⟨_, _, _, _, _, _, rfl⟩
  · split
    · exact ⟨_, _, _, _, _, _, rfl⟩
    · let opened := (Input.Source.mk descriptor false none .start).openOn s.channel
      obtain ⟨_, _, _, h⟩ := logAll_frame { s with channel := opened.channel } opened.events
      simp only [result_modify_bind]
      rw [show ({ s with channel := opened.channel } : Session σ).logAll opened.events = _ from h]
      split
      · exact ⟨_, _, _, _, _, _, rfl⟩
      · obtain ⟨_, _, _, h'⟩ := log_frame (σ := σ) _ _
        simp only [result_modify_bind, result_pure]
        rw [h']
        exact ⟨_, _, _, _, _, _, rfl⟩

/-! ### Opening and closing a source -/

namespace Input.Source

theorem takeTerminal_eq (source : Source) (p : Channel) :
    (source.takeTerminal p).source.isOpen = source.isOpen ∧
      (source.takeTerminal p).channel.loopFaults = p.loopFaults ∧
      (source.takeTerminal p).failure = none := by
  unfold takeTerminal
  split
  · exact ⟨rfl, rfl, rfl⟩
  · simp only
    split <;> exact ⟨rfl, rfl, rfl⟩

theorem releaseTerminal_eq (source : Source) (p : Channel) :
    (source.releaseTerminal p).source.isOpen = source.isOpen ∧
      (source.releaseTerminal p).channel.loopFaults = p.loopFaults ∧
      (source.releaseTerminal p).failure = none := by
  unfold releaseTerminal
  split
  · exact ⟨rfl, rfl, rfl⟩
  · simp only
    split <;> exact ⟨rfl, rfl, rfl⟩

theorem openOn_eq {source : Source} (closed : source.isOpen = false) (p : Channel) :
    (source.openOn p).failure = p.loopFaults.lookup .watch ∧
      (source.openOn p).source.isOpen = (p.loopFaults.lookup .watch).isNone ∧
      (source.openOn p).channel.loopFaults = p.loopFaults := by
  obtain ⟨isOpen, faults, failure⟩ := source.takeTerminal_eq p
  simp only [openOn, closed, Bool.false_eq_true, if_false, faults]
  cases hf : p.loopFaults.lookup .watch with
  | none => exact ⟨failure, rfl, rfl⟩
  | some f =>
      obtain ⟨isOpen', faults', -⟩ :=
        (source.takeTerminal p).source.releaseTerminal_eq (source.takeTerminal p).channel
      exact ⟨rfl, isOpen'.trans (isOpen.trans closed), faults'.trans faults⟩

theorem loopFaults_closeOn (source : Source) (p : Channel) :
    (source.closeOn p).channel.loopFaults = p.loopFaults := by
  unfold closeOn
  split
  · rfl
  · simp only
    split <;> exact (releaseTerminal_eq ..).2.1

/-- Only a loop that goes on watching makes the closing of a source fail. -/
theorem failure_closeOn (source : Source) (p : Channel) :
    (source.closeOn p).failure =
      if source.isOpen then p.loopFaults.lookup .unwatch else none := by
  unfold closeOn
  cases source.isOpen with
  | false => rfl
  | true =>
      cases hf : p.loopFaults.lookup .unwatch with
      | some f => simp
      | none => simpa [hf] using (releaseTerminal_eq ..).2.2

/-- The mode is put back even if the loop goes on watching, unless the terminal refuses. -/
theorem mode_closeOn {source : Source} {p : Channel} (opened : source.isOpen = true) {mode : Mode}
    (saved : source.savedMode = some mode)
    (granted : p.terminalFaults.lookup .restoreMode = none) :
    (source.closeOn p).channel.mode = mode := by
  unfold closeOn
  rw [if_neg (by simp [opened])]
  cases p.loopFaults.lookup .unwatch <;> simp [releaseTerminal, saved, granted]

end Input.Source

def Session.detachFault (s : Session σ) : Option Failure :=
  match s.input with
  | some (.source source) => (source.closeOn s.channel).failure
  | _ => none

def Session.closedChannel (s : Session σ) : Input.Channel :=
  match s.input with
  | some (.source source) => (source.closeOn s.channel).channel
  | _ => s.channel

/-- Giving the input up concerns nothing else, however it ends. -/
theorem Session.detach_frame (s : Session σ) :
    ∃ reader writes midRow errors, (detach.result s).2 = { s with
      input := none, reader, channel := s.closedChannel
      editor := { s.editor with writes, midRow }
      host := { s.host with errors } } := by
  rcases hi : s.input with _ | source | _
  · refine ⟨s.reader, s.editor.writes, s.editor.midRow, s.host.errors, ?_⟩
    simp only [detach, result_get_bind, hi, closedChannel, result_pure]
    rw [← hi]
  · obtain ⟨_, _, _, h⟩ := logAll_frame { s with input := none, channel := s.closedChannel }
      (source.closeOn s.channel).events
    simp only [closedChannel, hi] at h
    simp only [detach, result_get_bind, hi, result_modify_bind, closedChannel, h]
    split
    · exact ⟨_, _, _, _, rfl⟩
    · obtain ⟨_, _, _, h'⟩ := log_frame (σ := σ) _ _
      simp only [result_modify_bind, result_pure]
      rw [h']
      exact ⟨_, _, _, _, rfl⟩
  · refine ⟨s.reader, s.editor.writes, s.editor.midRow, s.host.errors, ?_⟩
    simp only [detach, result_get_bind, hi, closedChannel]
    rfl

theorem aside_detach (s : Session σ) : s.Aside (detach.result s).2 := by
  obtain ⟨_, _, _, _, h⟩ := s.detach_frame
  exact ⟨_, _, _, _, _, _, h⟩

/-- Giving the input up yields whether there was one, or fails as the loop does. -/
theorem fst_result_detach (s : Session σ) :
    (detach.result s).1 = match s.detachFault with
      | some f => .error (.failure f)
      | none => .ok s.input.isSome := by
  simp only [detach, result_get_bind, detachFault]
  rcases s.input with _ | source | _
  · rfl
  · simp only [result_modify_bind]
    cases (source.closeOn s.channel).failure <;> rfl
  · rfl

/-- The input of a state has been given up in another one, the mode of its terminal being as before
unless the terminal refuses to change it. -/
structure Session.InputFreed (s t : Session σ) : Prop where
  detached : t.input = none
  restored : ∀ source mode, s.input = some (.source source) → source.isOpen = true →
    source.savedMode = some mode → s.channel.terminalFaults.lookup .restoreMode = none →
    t.channel.mode = mode

theorem inputFreed_detach (s : Session σ) : s.InputFreed (detach.result s).2 := by
  obtain ⟨_, _, _, _, h⟩ := s.detach_frame
  rw [h]
  refine ⟨rfl, fun source mode attached opened saved granted => ?_⟩
  simp only [closedChannel, attached]
  exact Input.Source.mode_closeOn opened saved granted

end LineShell
