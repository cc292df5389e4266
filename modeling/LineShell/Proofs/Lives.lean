import LineShell.Proofs.Courses
import LineShell.Proofs.FailedStart
import LineShell.Proofs.Release

/-!
# Lives of a shell

A shell may be started more than once, each time with other settings. In between its event loop is
run, programs are run beside the loop, history files are loaded, and the system around the shell
changes. What all of this keeps holds through the whole life; what a start does not keep of itself
has to be known of each start.
-/

namespace LineShell

open Act Edit Session

variable {σ : Type} {rules : Rules} {depth : Nat} {s₀ s : Session σ} {P : Session σ → Prop}

structure Launch (σ : Type) where
  shell : Session σ
  argv : List String

/-- The shell that a start leaves, whether it has failed or not. -/
def Launch.left (l : Launch σ) : Session σ := ((start l.argv).result l.shell).2

/-- The states that the lives of a shell reach, programs keeping to rules and leading to others down
to a depth, with the starts on the way. Whatever happens may be given up, and life goes on. -/
inductive Life (rules : Rules) (depth : Nat) (s₀ : Session σ) : List (Launch σ) → Session σ → Prop
  | new : Life rules depth s₀ [] s₀
  | start {launches : List (Launch σ)} {s : Session σ} (before : Life rules depth s₀ launches s)
      (argv : List String) :
      Life rules depth s₀ (launches ++ [⟨s, argv⟩]) (Launch.left ⟨s, argv⟩)
  | program {launches : List (Launch σ)} {s : Session σ} (before : Life rules depth s₀ launches s)
      {p : Program σ} (follows : p.Follows rules true) :
      Life rules depth s₀ launches ((p.exec depth).result s).2
  /-- The event loop is run, until the shell is to end and is torn down. -/
  | run {launches : List (Launch σ)} {s : Session σ} (before : Life rules depth s₀ launches s)
      {events : List (List (Occurrence σ))}
      (follows : ∀ os ∈ events, ∀ p, .program p ∈ os → p.Follows rules true) :
      Life rules depth s₀ launches ((run events).result s).2
  | load {launches : List (Launch σ)} {s : Session σ} (before : Life rules depth s₀ launches s)
      (path : Path) : Life rules depth s₀ launches ((loadHistory path).result s).2
  /-- Files, environment and clock change, or bytes arrive. -/
  | outside {launches : List (Launch σ)} {s : Session σ} (before : Life rules depth s₀ launches s)
      (host : Host) (channel : Input.Channel) :
      Life rules depth s₀ launches { s with host, channel }

/-- A property that lives on: all but a start keeps it. -/
structure LivesOn (rules : Rules) (P : Session σ → Prop) : Prop where
  free : Unattached P
  closed : Closed rules (Invariant rules P)
  signal : ∀ {s} signal, P s → s.Follows rules → P (s.receiveSignal signal)
  /-- Neither the loop nor the handlers of the signals matter, -/
  served : ∀ {s : Session σ} loop bridge, P s → P { s with loop, bridge }
  /-- nor what is known about the system. -/
  around : ∀ {s : Session σ} host, P s → P { s with host }
  load : ∀ {s} path, P s → P ((loadHistory path).result s).2

/-! ### Programs that a shell holds -/

theorem Session.Follows.load (h : s.Follows rules) (path : Path) :
    ((loadHistory path).result s).2.Follows rules := by
  cases loaded : (s.editor.history.load s.host.store path).1 with
  | ok history =>
      obtain ⟨host, ended⟩ := result_loadHistory_of_ok loaded
      rw [ended]
      exact h.congr rfl rfl rfl rfl
  | error fault =>
      obtain ⟨writes, midRow, host, ended⟩ := result_loadHistory_of_error loaded
      rw [ended]
      exact h.congr rfl rfl rfl rfl

/-- What a start leaves: reports, or the settings in force, or besides these a session with the
history file opened. -/
theorem Launch.left_cases (l : Launch σ) :
    (l.shell.requested? l.argv = none ∧ l.shell.OnlyReports l.left) ∨
    ∃ settings, l.shell.requested? l.argv = some settings ∧
      (l.left = l.shell.adoptSettings settings ∨
        l.left = ((openHistory settings).result (l.shell.adoptSettings settings)).2.beginRun) := by
  unfold Launch.left
  cases asked : l.shell.requested? l.argv with
  | none =>
      obtain ⟨i, t, ended, reports⟩ := result_start_of_unasked asked
      rw [ended]
      exact .inl ⟨rfl, reports⟩
  | some settings =>
      refine .inr ⟨settings, rfl, ?_⟩
      cases blocked : settings.startFault l.shell.host.places with
      | some fault =>
          rw [result_start_of_fault asked blocked]
          exact .inl rfl
      | none =>
          obtain ⟨args, ended⟩ := result_start_of_open asked blocked
          rw [ended]
          exact .inr rfl

theorem Session.Follows.launch {l : Launch σ} (h : l.shell.Follows rules) :
    l.left.Follows rules := by
  rcases l.left_cases with ⟨-, errors, printed, left⟩ | ⟨settings, -, left | left⟩
  · rw [left]
    exact h.congr rfl rfl rfl rfl
  · rw [left]
    exact h.congr rfl rfl rfl rfl
  · obtain ⟨history, writes, midRow, host, opened, -⟩ :=
      openHistory_frame settings (l.shell.adoptSettings settings)
    rw [left, opened]
    exact h.congr rfl rfl rfl rfl

/-! ### What lives on -/

/-- The rules allow what the event loop does by itself. -/
structure Rules.Serve (rules : Rules) : Prop where
  feeds : ∀ text, rules.uses (.feed text)
  hangsUp : rules.uses .hangUp
  quits : rules.uses .quit

namespace LivesOn

theorem run (k : LivesOn rules P) (serve : rules.Serve) {events : List (List (Occurrence σ))}
    (events_follow : ∀ os ∈ events, ∀ p, .program p ∈ os → p.Follows rules true) (h : P s)
    (follows : s.Follows rules) :
    P ((Session.run events).result s).2 ∧ ((Session.run events).result s).2.Follows rules := by
  cases begun : s.loop.isSome with
  | false =>
      have idle : s.loop.isNone = true := by simpa using begun
      have refused : ((Session.run events).result s).2 = s := by
        simp only [Session.run, beginService]
        rw [result_bind]
        simp only [result_get_bind, idle, if_true, result_fail_bind]
      rw [refused]
      exact ⟨h, follows⟩
  | true =>
      rcases body : (loopBody events).result s.served with ⟨ended, u⟩
      have left : ((Session.run events).result s).2 = (endService.result u).2 := by
        rw [result_run begun body]
        rcases endService.result u with ⟨_ | _, t⟩ <;> rfl
      -- The loop goes along a course, and what comes behind it is a tearing down.
      obtain ⟨ds, course⟩ := Act.Onward.loopBody serve.feeds serve.hangsUp serve.quits
        events_follow [] s.served .start
      rw [body] at course
      obtain ⟨hu, held⟩ := course.invariant (P := fun _ => P) (fun _ => k.closed)
        (fun signal h follows => k.signal signal h follows)
        (fun _ h => k.free.inlet _ _ _ h) (k.served s.loop _ h) (follows.congr rfl rfl rfl rfl)
      have stopped : Invariant rules P
          { u with loop := u.loop.map fun l => { l with stopping := false } }
          { u with loop := u.loop.map fun l => { l with stopping := false } } :=
        ⟨rfl, k.served _ u.bridge hu, held.congr rfl rfl rfl rfl⟩
      have torn := k.free.tearDown k.closed.toStable (k.closed.exec Program.depthLimit) _ _ stopped
      rw [left]
      exact Invariant.left torn

end LivesOn

/-- What lives on holds all through a life, if each start on the way has kept it. -/
theorem Life.invariant {launches : List (Launch σ)} (life : Life rules depth s₀ launches s)
    (serve : rules.Serve) (k : LivesOn rules P)
    (starts : ∀ l ∈ launches, P l.shell → P l.left) (h₀ : P s₀) (follows : s₀.Follows rules) :
    P s ∧ s.Follows rules := by
  induction life with
  | new => exact ⟨h₀, follows⟩
  | start before argv ih =>
      obtain ⟨hp, hf⟩ := ih fun l member => starts l (List.mem_append_left _ member)
      exact ⟨starts _ (List.mem_append_right _ (List.mem_singleton_self _)) hp, hf.launch⟩
  | program before follows ih => exact k.closed.left depth follows (ih starts)
  | run before events_follow ih =>
      exact k.run serve events_follow (ih starts).1 (ih starts).2
  | load before path ih => exact ⟨k.load path (ih starts).1, (ih starts).2.load path⟩
  | outside before host channel ih =>
      exact ⟨k.free.inlet _ _ channel (k.around host (ih starts).1),
        (ih starts).2.congr rfl rfl rfl rfl⟩

end LineShell
