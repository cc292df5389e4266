import LineShell.Proofs.FailedStart
import LineShell.Proofs.FirstKey
import LineShell.Proofs.Release

/-!
# One session after another

A shell that has been torn down may be started again. What keys have left behind is the edit line,
the walk through the history with its draft, and whether a carriage return came last; incomplete
sequences are forgotten. Where neither line nor walk is left, the next session runs as after any
other first session with the same outcome, the keys of the first session making no difference.
-/

namespace LineShell

open Act Edit Session

variable {σ : Type} {s s' t t' : Session σ} {latched : Prop}

/-! ### What a session leaves -/

/-- An editor without all that keys and writing leave behind. -/
def Edit.Editor.keyless (e : Editor) : Editor :=
  { e.plain with line := {}, decoder := {}, recalled := none }

/-- Sessions differ at most in what keys leave behind in the editor, in where the input comes from,
and in what they have written. -/
structure Session.SameOutcome (t t' : Session σ) : Prop where
  frame : t'.frame = t.frame
  editor : t'.editor.keyless = t.editor.keyless

/-- What keys have left behind is the same: the line, and the walk through the history. -/
structure Edit.Editor.SameLeft (e e' : Editor) : Prop where
  line : e'.line = e.line
  recalled : e'.recalled = e.recalled
  draft : e.recalled = none ∨ e'.draft = e.draft

/-- The event loop of a session has run, and the shell has been torn down to the end. -/
def Session.Over (s t : Session σ) : Prop :=
  ∃ events ended, (run events).result s = (ended, t) ∧ ∃ v : Session σ, v.Released t

/-- Incomplete sequences are forgotten at the end of a session, and no input is left. -/
theorem Session.Over.apart {s s' : Session σ} (ended : s.Over t) (ended' : s'.Over t')
    (outcome : t.SameOutcome t') (left : t.editor.SameLeft t'.editor)
    (latch : latched → t'.editor.afterReturn = t.editor.afterReturn) : t.Apart latched t' := by
  obtain ⟨-, -, -, v, released⟩ := ended
  obtain ⟨-, -, -, v', released'⟩ := ended'
  have decoder : t'.editor.decoder = t.editor.decoder :=
    released'.editor.2.1.trans released.editor.2.1.symm
  have plain : t'.editor.plain = t.editor.plain := by
    calc t'.editor.plain
        = { t'.editor.keyless with
            line := t'.editor.line, decoder := t'.editor.decoder
            recalled := t'.editor.recalled } := rfl
      _ = { t.editor.keyless with
            line := t.editor.line, decoder := t.editor.decoder
            recalled := t.editor.recalled } := by
          rw [outcome.editor, left.line, left.recalled, decoder]
      _ = t.editor.plain := rfl
  have attached : t'.attached = t.attached := by
    rw [Session.attached, Session.attached, released'.input.detached, released.input.detached]
  exact ⟨outcome.frame, ⟨plain, left.draft, latch⟩, attached⟩

theorem editor_requestedSettings (o : Options) (s : Session σ) :
    ((requestedSettings o).result s).2.editor = s.editor := by
  rcases result_requestedSettings o s with ⟨_, h⟩ | ⟨_, _, h, _, _, rfl⟩
  · rw [h]
  · rw [h]

theorem editor_openHistory (settings : Settings) (s : Session σ) :
    ∃ history writes midRow, ((openHistory settings).result s).2.editor =
      { s.editor with history, writes, midRow } := by
  simp only [openHistory, result_get_bind]
  split
  · exact ⟨_, _, _, rfl⟩
  · exact ⟨_, _, _, rfl⟩
  · simp only [loadHistory, result_get_bind, result_modify_bind]
    split
    · exact ⟨_, _, _, rfl⟩
    · obtain ⟨_, _, _, h⟩ := log_frame (σ := σ) _ _
      rw [result_modify, h]
      exact ⟨_, _, _, rfl⟩
    · exact ⟨_, _, _, rfl⟩

def Edit.Editor.unstarted (e : Editor) : Editor :=
  { e with
    prompt := "", given := [], eraseEmptyLine := true, history := {}, writes := [], midRow := false
    installed := false, handling := false }

theorem unstarted_of_startWith {o : Options} {args : List String} {u : Session σ}
    (started : (startWith o).result t = (.ok args, u)) :
    u.editor.unstarted = t.editor.unstarted ∧ u.editor.installed = true := by
  have asked := editor_requestedSettings o t
  rw [startWith, result_bind] at started
  rcases hr : (requestedSettings o).result t with ⟨_ | settings, t₁⟩
  · rw [hr] at started
    cases started
  rw [hr] at started asked
  simp only [result_modify_bind] at started
  obtain ⟨history, writes, midRow, opened⟩ :=
    editor_openHistory settings (t₁.adoptSettings settings)
  rw [result_bind] at started
  rcases level : settings.levelFailure with _ | fault
  case some =>
    rw [result_checkLevel_of_some level] at started
    cases started
  rw [result_checkLevel_of_none level] at started
  simp only at started
  rw [result_bind] at started
  rcases ho : (openHistory settings).result (t₁.adoptSettings settings) with ⟨_ | _, t₂⟩
  · rw [ho] at started
    cases started
  rw [ho] at started opened
  cases started
  have before : t₂.editor.unstarted = t₁.editor.unstarted := congrArg (·.unstarted) opened
  exact ⟨before.trans (congrArg (·.unstarted) asked), rfl⟩

theorem unstarted_of_start {argv args : List String} {u : Session σ}
    (started : (start argv).result t = (.ok args, u)) :
    u.editor.unstarted = t.editor.unstarted ∧ u.editor.installed = true := by
  unfold start at started
  split at started
  · cases started
  · split at started
    · cases started
    · split at started
      · cases started
      · exact unstarted_of_startWith started

theorem left_of_start {argv args : List String} {u : Session σ}
    (started : (start argv).result t = (.ok args, u)) :
    u.editor.line = t.editor.line ∧ u.editor.decoder = t.editor.decoder ∧
      u.editor.installed = true := by
  obtain ⟨left, installed⟩ := unstarted_of_start started
  exact ⟨congrArg (·.line) left, congrArg (·.decoder) left, installed⟩

/-- Two first sessions with the same outcome, whatever keys they have read: the next session begins
with the line that they have left, and if this is the same line, and the same walk through the
history, every start ends alike, and so does all that is fed, as far as programs and the edit line
are concerned. Where the first sessions differ in whether a carriage return came last, the text must
not begin with a line feed. -/
theorem apart_of_over {s₁ s₂ t₁ t₂ : Session σ} {depth : Nat} {argv : List String}
    {text : List Char} (ended₁ : s₁.Over t₁) (ended₂ : s₂.Over t₂) (outcome : t₁.SameOutcome t₂)
    (commands : t₁.consumer = .commands) (left : t₁.editor.SameLeft t₂.editor)
    (latch : t₂.editor.afterReturn = t₁.editor.afterReturn ∨ text.head? ≠ some '\n') :
    ∃ started u₁ u₂, (start argv).result t₁ = (started, u₁) ∧
      (start argv).result t₂ = (started, u₂) ∧ u₁.Apart False u₂ ∧
      (started.isOk = true →
        u₁.editor.line = t₁.editor.line ∧ u₂.editor.line = t₁.editor.line ∧
        ∃ fed w₁ w₂, (feed (Program.exec depth) text).result u₁ = (fed, w₁) ∧
          (feed (Program.exec depth) text).result u₂ = (fed, w₂) ∧ w₁.Apart False w₂) := by
  have before : SideBySide (t₂.editor.afterReturn = t₁.editor.afterReturn) t₁ t₂ :=
    ⟨ended₁.apart ended₂ outcome left id, commands⟩
  obtain ⟨started, u₁, u₂, h₁, h₂, begun⟩ :=
    ((Stable.start stable_sideBySide trivial before).weaken (fun _ _ h => h)
      fun _ _ _ h => h.1).exists_eq
  refine ⟨started, u₁, u₂, h₁, h₂, begun.weaken.1, fun ok => ?_⟩
  cases started with
  | error => cases ok
  | ok args =>
      obtain ⟨line₁, decoder, installed⟩ := left_of_start h₁
      obtain ⟨line₂, -, -⟩ := left_of_start h₂
      have fresh : t₁.editor.decoder = {} := by
        obtain ⟨-, -, -, v, released⟩ := ended₁
        exact released.editor.2.1
      obtain ⟨fed, w₁, w₂, hw₁, hw₂, after⟩ := (begun.feed depth text
        (latch.imp_right fun other => ⟨installed, decoder.trans fresh, other⟩)).exists_eq
      exact ⟨line₁, line₂.trans left.line, fed, w₁, w₂, hw₁, hw₂, after.1⟩

/-- A session that ends without a request or an input is over to the end if its log has a level. -/
theorem over_of_idle {events : List (List (Occurrence σ))} (begun : s.loop.isSome = true)
    (fresh : ((loopBody events).result s.served).2.tornDown = false)
    (idle : ((loopBody events).result s.served).2.request = none)
    (detached : ((loopBody events).result s.served).2.input = none)
    (ranked : ((loopBody events).result s.served).2.host.settings.levelFailure = none) :
    s.Over ((run events).result s).2 := by
  rcases body : (loopBody events).result s.served with ⟨ended, u⟩
  rw [body] at fresh idle detached ranked
  have answer : (release Program.execute "").result u.closing = (.ok false, u.closing) :=
    result_release_of_idle (s := u.closing) idle ""
  have granted : u.closing.detachFault = none := by
    have none_attached : u.closing.input = none := detached
    simp only [detachFault, none_attached]
  obtain ⟨t, ht, released⟩ := released_of_run begun body fresh answer granted ranked
  rw [ht]
  exact ⟨events, ended, ht, u.closing, released⟩

def startedShell : Session Unit := (bareShell [] ()).beginRun

def interruptedShell : Session Unit :=
  ((feed (Program.exec 1) ['\r', '\x1b']).result startedShell).2

/-- What is left when the shell has ended with its input. -/
def lastOf (s : Session Unit) : Session Unit := ((run []).result s).2

set_option maxRecDepth 1024 in
theorem over_lastOf : startedShell.Over (lastOf startedShell) ∧
    interruptedShell.Over (lastOf interruptedShell) :=
  ⟨over_of_idle rfl rfl rfl rfl (by decide +kernel),
    over_of_idle rfl rfl rfl rfl (by decide +kernel)⟩

set_option maxRecDepth 1024 in
/-- The rest of the key is text in the next session, as if nothing had been read before. -/
theorem line_interrupted : ∃ started u u',
    (start ["x"]).result (lastOf startedShell) = (started, u) ∧
    (start ["x"]).result (lastOf interruptedShell) = (started, u') ∧
    ∃ fed w w', (feed (Program.exec 1) ['[', 'A']).result u = (fed, w) ∧
      (feed (Program.exec 1) ['[', 'A']).result u' = (fed, w') ∧
      w.editor.line = .ofText ['[', 'A'] ∧ w'.editor.line = .ofText ['[', 'A'] := by
  have run : ((start ["x"]).result (lastOf startedShell)).1.isOk = true ∧
      ((feed (Program.exec 1) ['[', 'A']).result
        ((start ["x"]).result (lastOf startedShell)).2).2.editor.line = .ofText ['[', 'A'] := by
    decide +kernel
  obtain ⟨ok, typed⟩ := run
  obtain ⟨started, u, u', hu, hu', -, next⟩ :=
    apart_of_over over_lastOf.1 over_lastOf.2 ⟨rfl, rfl⟩ rfl ⟨rfl, rfl, .inl rfl⟩
      (.inr (by decide : ['[', 'A'].head? ≠ some '\n'))
  rw [hu] at ok typed
  obtain ⟨-, -, fed, w, w', hw, hw', apart⟩ := next ok
  rw [hw] at typed
  exact ⟨started, u, u', hu, hu', fed, w, w', hw, hw', typed,
    (congrArg (·.line) apart.editor.plain).trans typed⟩

end LineShell
