import LineShell.Proofs.Shown
import LineShell.Proofs.Advances

/-!
# One consumer for every line

A completed line answers the request that is waiting, or else it enters the history and is run as a
command. Over a whole run the requests that have begun are those that were answered and the one that
is still waiting, in this order, as the journal tells.
-/

namespace LineShell

open Act Session

variable {σ : Type} {s t : Session σ} {call : Program σ → Act σ Reply} {line : String}

theorem Reached.later {rules : Rules} {depth : Nat} {tolerated : Interrupt → Session σ → Prop}
    (reached : Reached rules depth tolerated s t) : s.Later t := by
  induction reached with
  | start => exact .refl s
  | @keys u _ _ _ text fed _ ih =>
      have rest := advances_feed (s := u) (advances_exec depth) text
      rw [Advances, fed] at rest
      exact ih.trans rest
  | @program u _ _ _ p _ run ih =>
      have rest := advances_exec depth p u
      rw [Advances, run] at rest
      exact ih.trans rest

/-! ### The law of lines -/

/-- A request gets its answer: its callback is run with it and with the data of the request. -/
def PendingRequest.receive (call : Program σ → Act σ Reply) (r : PendingRequest σ)
    (answer : String) : Act σ Unit :=
  match r.callback with
  | some callback => do
    let _ ← call (callback answer r.data)
  | none => return

theorem result_release_of_waiting {r : PendingRequest σ} (waiting : s.request = some r)
    (answer : String) :
    (release call answer).result s =
      (do r.receive call answer; return true : Act σ Bool).result (s.answered r answer) := by
  simp only [release, result_get_bind, waiting, result_modify_bind, PendingRequest.receive]
  cases r.callback with
  | none => simp only [pure_bind]
  | some callback => simp only [bind_assoc, pure_bind]

/-- A request that is answered without being given up leaves what its callback leaves. -/
theorem result_receive_of_release {r : PendingRequest σ} {answer : String} {answered : Bool}
    (waiting : s.request = some r) (released : (release call answer).result s = (.ok answered, t)) :
    (r.receive call answer).result (s.answered r answer) = (.ok ⟨⟩, t) := by
  rw [result_release_of_waiting waiting, result_bind] at released
  rcases received : (r.receive call answer).result (s.answered r answer) with ⟨_ | _, u⟩ <;>
    rw [received] at released <;> cases released
  rfl

theorem result_release_of_idle (idle : s.request = none) (answer : String) :
    (release call answer).result s = (.ok false, s) := by
  simp only [release, result_get_bind, idle, result_pure]

/-- What becomes of a completed line. -/
structure LineLaw (call : Program σ → Act σ Reply) (line : String) (s : Session σ) : Prop where
  /-- An empty line changes nothing. -/
  empty : line = "" → (completeLine call (some line)).result s = (.ok ⟨⟩, s)
  /-- A line goes to the request that is waiting, which is over by then, and nowhere else. -/
  answer : line ≠ "" → ∀ r, s.request = some r →
    (completeLine call (some line)).result s =
        (r.receive call line).result (s.answered r line) ∧
      (s.answered r line).request = none ∧ (s.answered r line).host = s.host ∧
      (s.answered r line).editor.history = s.editor.history
  /-- Otherwise it is added to the history and run as a command; no request is touched. -/
  command : line ≠ "" → s.request = none →
    ¬ (s.HistoryBlocked ∧ s.editor.history.accepts line = true) →
    ∃ t, (remember line).result s = (.ok (s.editor.history.accepts line), t) ∧
      t.editor.history = s.editor.history.remember line ∧ t.core = s.core ∧
      (completeLine call (some line)).result s = (dispatch call line).result t
  /-- A line that cannot be added to the file of the history is not run. -/
  blocked : s.request = none → s.HistoryBlocked → s.editor.history.accepts line = true →
    (completeLine call (some line)).result s = (.error (.failure (.file .nul)),
      s.onEditor fun e => { e with history := e.history.remember line })

/-- A line is added to the history unless the path of its file holds NUL; all but the history, the
files and the log stays as it is. -/
theorem result_remember (free : ¬ (s.HistoryBlocked ∧ s.editor.history.accepts line = true)) :
    ∃ t, (remember line).result s = (.ok (s.editor.history.accepts line), t) ∧
      t.editor.history = s.editor.history.remember line ∧ t.core = s.core := by
  have added := s.editor.history.fst_add s.host.store s.host.entryTime line
  have nul := @Edit.History.hasNul_of_add s.editor.history s.host.store s.host.entryTime line
  simp only [remember, result_get_bind]
  rcases h : s.editor.history.add s.host.store s.host.entryTime line with
    ⟨kept, history, store, fault⟩
  rw [h] at added nul
  obtain ⟨rfl, rfl⟩ := added
  simp only [result_modify_bind]
  rcases fault with _ | (⟨cause, path⟩ | _)
  · exact ⟨_, rfl, rfl, rfl⟩
  · simp only [result_modify_bind, result_pure]
    refine ⟨_, rfl, ?_, (core_log ..).trans rfl⟩
    obtain ⟨_, _, _, hl⟩ := log_frame (σ := σ) _ _
    rw [hl]
    rfl
  · -- A line that is not accepted does not reach the file.
    cases accepted : s.editor.history.accepts line with
    | true => exact absurd ⟨nul rfl, accepted⟩ free
    | false => simp [Edit.History.add, accepted] at h

theorem lineLaw (call : Program σ → Act σ Reply) (line : String) (s : Session σ) :
    LineLaw call line s where
  empty := by
    rintro rfl
    rfl
  answer := by
    intro nonempty r waiting
    have history : s.editor.restorePrompt.history = s.editor.history := by
      simp only [Edit.Editor.restorePrompt, Edit.Editor.redisplayIfInstalled]
      split <;> rfl
    refine ⟨?_, rfl, rfl, history⟩
    simp only [completeLine, if_neg nonempty]
    rw [result_bind, result_release_of_waiting waiting, result_bind]
    rcases (r.receive call line).result (s.answered r line) with ⟨_ | _, _⟩ <;> rfl
  command := by
    intro nonempty idle free
    obtain ⟨t, ht, history, core⟩ := result_remember free
    refine ⟨t, ht, history, core, ?_⟩
    simp only [completeLine, if_neg nonempty, runLine]
    rw [result_bind, result_release_of_idle idle]
    simp only [Bool.false_eq_true, if_false]
    rw [result_bind, ht]
  blocked := by
    intro idle blocked accepted
    have nonempty : line ≠ "" := by
      rintro rfl
      simp [Edit.History.accepts] at accepted
    simp only [completeLine, if_neg nonempty, runLine]
    rw [result_bind, result_release_of_idle idle]
    simp only [Bool.false_eq_true, if_false]
    rw [result_bind, result_remember_of_blocked blocked accepted]

/-- Asks for some codes, one after the other, and notes the answers. -/
def inquiry : Nat → Program (List String)
  | 0 => .skip
  | n + 1 =>
    .request "box" "Code:" (some fun code _ => .note (code :: ·) (inquiry n)) (.text "") .skip

def inquiringShell : Session (List String) :=
  bareShell [{ name := "ask", handler := fun _ => inquiry 2 }] []

/-- The command has been entered and the first code has been given. -/
def inquiring : Except Interrupt Unit × Session (List String) :=
  (feed (Program.exec 4) "ask\r12\r".toList).result inquiringShell.beginRun

end LineShell
