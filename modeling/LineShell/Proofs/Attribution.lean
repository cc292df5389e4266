import LineShell.Proofs.Completing
import LineShell.Proofs.Enumerating

/-!
# Whose hook shows completions

A command may have a hook that shows the completions its generator has found. Which hook is to show
completions is kept between attempts, and an attempt that finds no generator leaves that of an
earlier one in place; but then it has found nothing, and is over. So whatever has been completed
before, the completions of a command are shown by the hook of this command or, as the names of
commands are, in columns.
-/

namespace LineShell

open Act Edit Session

variable {σ : Type} {call : Program σ → Act σ Reply} {s t : Session σ} {found : List String}
  {text : String} {start : Int} {line : List Char} {origin : Completion.Origin (Program σ)}

/-! ### Where completions have come from -/

namespace Completion

/-- What shows completions that come from an origin, if not the editor itself. -/
def Origin.hook : Origin (Program σ) → Option (String → List String → Nat → Program σ)
  | .generator e _ => e.displayHook
  | .names | .nowhere => none

/-- Completions of a text have come from an origin: they are the names of commands, or a generator
has yielded them, being asked by the numbers from zero on. -/
def Origin.Produces (call : Program σ → Act σ Reply) (r : Command.Registry (Program σ))
    (text : String) (found : List String) : Origin (Program σ) → Prop
  | .names => found = r.namesFrom text
  | .generator e g => e.generator = some g ∧ ∃ s t, Yields call (g text) 0 s found t
  | .nowhere => found = []

def Origin.show (call : Program σ → Act σ Reply) (word : String) (found : List String)
    (origin : Origin (Program σ)) : Act σ Unit := do
  match origin.hook with
  | some f =>
    let _ ← call (f word found (Columns.longest found))
  | none =>
    let rows := Columns.layout found (Columns.terminalWidth (← get).host.env)
    modify (·.onEditor (·.emit (.listing rows)))
  modify (·.onEditor (·.redisplay))

theorem result_showCompletions (word : String)
    (hook : t.completion.bind (·.displayHook) = origin.hook) :
    (showCompletions call word found).result t = (origin.show call word found).result t := by
  simp only [showCompletions, Origin.show, result_get_bind, hook]
  cases origin.hook <;> rfl

/-- What is asked for completions makes no attempt at completion itself, so that one attempt comes
after the other. On all else it may act as it likes; it may also be given up. -/
def Origin.Spares (call : Program σ → Act σ Reply) (text : String) : Origin (Program σ) → Prop
  | .generator _ g => ∀ number s, (call (g text number)).Leaves s
      (fun _ t => t.completion = s.completion) fun _ _ => True
  | .names | .nowhere => True

end Completion

/-! ### Programs that complete nothing themselves -/

/-- Operations that lead to no programs, and change no more than what is edited and printed. -/
def Operation.IsAside : Operation → Prop
  | install _ | remove | editorPrompt _ | savePrompt | restorePrompt | message _ | clearMessage
  | write _ | redisplay | newRow | replaceLine _ | insertText _ | movePoint _ | print .. | setPrompt _
  | log _ => True
  | _ => False

/-- Programs that look at states, take notes, edit and print, and may offer a menu. -/
inductive Program.Aside : Program σ → Prop
  | done (reply : Reply) : Aside (.done reply)
  | fail (cause : Interrupt) : Aside (.fail cause)
  | consult {next : σ → Program σ} (h : ∀ state, Aside (next state)) : Aside (.consult next)
  | note {change : σ → σ} {next : Program σ} (h : Aside next) : Aside (.note change next)
  | inspect {next : Settings → Bool → Program σ}
      (h : ∀ settings colours, Aside (next settings colours)) : Aside (.inspect next)
  | perform {op : Operation} {next : Reply → Program σ} (aside : op.IsAside)
      (h : ∀ reply, Aside (next reply)) : Aside (.perform op next)
  | setMenu {menu : Option (List (Command.Entry (Program σ)))} {next : Bool → Program σ}
      (h : ∀ taken, Aside (next taken)) : Aside (.setMenu menu next)
  | suspended {body next : Program σ} (inner : Aside body) (h : Aside next) :
      Aside (.suspended body next)
  | attempt {body : Program σ} {next : Except Interrupt Reply → Program σ} (inner : Aside body)
      (h : ∀ r, Aside (next r)) : Aside (.attempt body next)

def Act.Spares {α : Type} (m : Act σ α) : Prop :=
  ∀ s, m.Leaves s (fun _ t => t.completion = s.completion) fun _ t => t.completion = s.completion

namespace Act.Spares

variable {α β : Type} {m : Act σ α}

theorem bind {k : α → Act σ β} (h : m.Spares) (hk : ∀ a, (k a).Spares) : (m >>= k).Spares := by
  intro s
  refine (h s).bind fun a t ht => ?_
  exact (hk a t).weaken (fun _ _ hu => hu.trans ht) fun _ _ hu => hu.trans ht

theorem outcome_bind {k : Except Interrupt α → Act σ β} (h : m.Spares) (hk : ∀ r, (k r).Spares) :
    (outcome m >>= k).Spares := by
  intro s
  refine (h s).outcome_bind (fun a t ht => ?_) fun i t ht => ?_
  · exact (hk _ t).weaken (fun _ _ hu => hu.trans ht) fun _ _ hu => hu.trans ht
  · exact (hk _ t).weaken (fun _ _ hu => hu.trans ht) fun _ _ hu => hu.trans ht

theorem suspended (h : m.Spares) : (Session.suspended m).Spares := by
  intro s
  simp only [Session.suspended, leaves_get_bind]
  split
  · rw [leaves_modify_bind]
    have inside := h (s.onEditor (·.blank))
    exact Leaves.ensuring inside (fun _ _ ht => ht) fun _ _ ht => ht
  · exact h s

end Act.Spares

theorem completion_log (s : Session σ) (event : Log.Event) :
    (s.log event).completion = s.completion := by
  obtain ⟨_, _, _, logged⟩ := s.log_frame event
  rw [logged]

theorem spares_perform {op : Operation} (aside : op.IsAside) :
    (Session.perform call op).Spares := by
  intro s
  cases op with
  | print template args =>
      simp only [Session.perform, Session.print]
      split
      · rfl
      · split <;> rfl
  | setPrompt prompt =>
      simp only [Session.perform, leaves_modify_bind, Session.setPrompt]
      split <;> rfl
  | log event => exact completion_log s event
  | install | remove | editorPrompt | savePrompt | restorePrompt | message | clearMessage | write
  | redisplay | newRow | replaceLine | insertText | movePoint => rfl
  | _ => exact aside.elim

theorem spares_run {p : Program σ} (aside : p.Aside) : (p.run call).Spares := by
  induction aside with
  | done | fail => exact fun _ => rfl
  | consult _ ih => exact fun s => ih s.programs s
  | note _ ih => exact fun s => ih { s with programs := _ }
  | inspect _ ih => exact fun s => ih s.settings s.colours s
  | perform aside _ ih => exact (spares_perform aside).bind ih
  | @setMenu menu next _ ih =>
      have offered : (Session.setMenu menu : Act σ Bool).Spares := fun s =>
        leaves_setMenu (P := fun t => t.completion = s.completion) rfl (completion_log s)
          fun _ _ _ _ => rfl
      exact offered.bind ih
  | suspended _ _ inner ih => exact inner.suspended.bind fun _ => ih
  | attempt _ _ inner ih => exact inner.outcome_bind ih

/-- A generator all of whose programs are such makes no attempt at completion itself. -/
theorem Completion.spares_of_aside {depth : Nat} {e : Command.Entry (Program σ)}
    {g : String → Nat → Program σ} (aside : ∀ number, (g text number).Aside) :
    (Origin.generator e g).Spares (Program.exec depth) text := by
  intro number s
  cases depth with
  | zero => trivial
  | succ depth =>
      exact (spares_run (aside number) s).weaken (fun _ _ ht => ht) fun _ _ _ => trivial

/-! ### An attempt -/

/-- Some completions have been found, the state of completion being `engine` then: it says whether
there are none, and what shows them. -/
structure Attributed (call : Program σ → Act σ Reply) (r : Command.Registry (Program σ))
    (text : String) (origin : Completion.Origin (Program σ)) (found : List String)
    (engine : Completion.Engine (Program σ)) : Prop where
  produced : origin.Produces call r text found
  nothing : engine.attemptOver = true ↔ found = []
  hook : found ≠ [] → engine.displayHook = origin.hook

/-- While a generator is asked, the hook of its command stays in place. -/
theorem leaves_collect_of_spares {e : Command.Entry (Program σ)} {g : String → Nat → Program σ}
    (spares : (Completion.Origin.generator e g).Spares call text) (s : Session σ) :
    (collect call g text Completion.limit 0).Leaves s
      (fun _ t => t.completion = s.completion) fun _ _ => True := by
  have kept : (collect call g text Completion.limit 0).Leaves s
      (fun found t => t.completion = s.completion ∧ ∀ c ∈ found, True) fun _ _ => True := by
    refine leaves_collect ?_ ?_ Completion.limit 0 rfl
    · intro t event same
      exact (completion_log t event).trans same
    · intro number t same
      exact (spares number t).weaken (fun _ _ hu => ⟨hu.trans same, fun _ _ => trivial⟩)
        fun _ _ _ => trivial
  exact kept.weaken (fun _ _ h => h.1) fun _ _ h => h

/-- Looking for completions puts the hook of their origin in place, unless there is no origin. -/
theorem attributed_of_candidates {engine : Completion.Engine (Program σ)}
    (comes : Completion.originAt s.registry start line = origin) (spares : origin.Spares call text)
    (present : s.completion = some engine)
    (looked : (origin.candidates call text).result s = (.ok found, t)) :
    ∃ hook, t.completion = some { engine with displayHook := hook } ∧
      origin.Produces call s.registry text found ∧ (found ≠ [] → hook = origin.hook) := by
  cases origin with
  | names =>
      cases looked
      exact ⟨none, by simp [setDisplayHook, present], rfl, fun _ => rfl⟩
  | nowhere =>
      cases looked
      exact ⟨engine.displayHook, present, rfl, fun some => absurd rfl some⟩
  | generator e g =>
      obtain ⟨-, resolved⟩ := Completion.resolved_of_originAt comes
      obtain ⟨_, -, -, known⟩ := Command.Registry.mem_of_resolveGenerator? resolved
      rw [Completion.result_candidates_generator] at looked
      have kept := (leaves_collect_of_spares spares (s.setDisplayHook e.displayHook)).ok looked
      obtain ⟨u, yields⟩ := Completion.yields_of_collect looked
      exact ⟨e.displayHook, by simpa [setDisplayHook, present] using kept,
        ⟨known, _, u, yields⟩, fun _ => rfl⟩

/-- An attempt says whether it has found nothing, and else leaves the hook of the origin in
place. -/
theorem attributed_of_complete (engine : s.completion.isSome = true)
    (comes : Completion.originAt s.registry start line = origin) (spares : origin.Spares call text)
    (ended : (complete call text start line).result s = (.ok found, t)) :
    ∃ engine, t.completion = some engine ∧
      Attributed call s.registry text origin found engine := by
  obtain ⟨engine, present⟩ := Option.isSome_iff_exists.mp engine
  have begun : (s.setAttemptOver false).completion =
      some { engine with attemptOver := false } := by
    simp [setAttemptOver, present]
  rw [Completion.result_complete, comes] at ended
  rcases looked : (origin.candidates call text).result (s.setAttemptOver false) with
    ⟨i | some, u⟩ <;> rw [looked] at ended
  · cases ended
  · obtain ⟨hook, left, produced, attributed⟩ :=
      attributed_of_candidates (s := s.setAttemptOver false) comes spares begun looked
    cases ended
    cases found with
    | nil =>
        exact ⟨{ engine with displayHook := hook, attemptOver := true },
          by simp [setAttemptOver, left], produced, by simp, attributed⟩
    | cons c found => exact ⟨_, left, produced, by simp, attributed⟩

/-! ### The law -/

/-- Completions that have been found are shown where nothing can be added to the word, and else the
key runs no program for them. -/
theorem result_tab_cases (installed : s.editor.installed = true)
    (engine : s.completion.isNone = false) (asked : s.asked call = (.ok found, t)) :
    if Completion.outcome s.editor.line found = .listed then
      (pressKey call .tab).result s = (showCompletions call
        (String.ofList (Completion.word s.editor.line.before)) found).result t
    else ∃ editor, (pressKey call .tab).result s = (.ok ⟨⟩, { t with editor }) := by
  have searched : (completeWord call s.editor.line).result
      (s.onEditor fun e => { e with afterReturn := false }) = (.ok found, t) := asked
  rw [result_pressKey_tab installed]
  simp only [completeKey, result_get_bind, onEditor] at searched ⊢
  rw [engine, if_neg Bool.false_ne_true, result_bind, searched]
  rcases found with _ | ⟨a, _ | ⟨b, found⟩⟩
  · exact ⟨t.editor, rfl⟩
  · exact ⟨_, rfl⟩
  · simp only [Completion.outcome]
    split
    · rfl
    · exact ⟨_, rfl⟩

/-- What completion does in a state, whichever attempts have come before. What is asked for
completions must not make attempts itself. -/
structure AttributionLaw (call : Program σ → Act σ Reply) (s : Session σ) : Prop where
  /-- An attempt that has found something leaves the hook in place of the very command that its
  completions come from, and one that has found nothing is over. -/
  attempt : ∀ text start line found t,
    (Completion.originAt s.registry start line).Spares call text →
    (complete call text start line).result s = (.ok found, t) →
    ∃ engine, t.completion = some engine ∧ Attributed call s.registry text
      (Completion.originAt s.registry start line) found engine
  /-- The key shows completions by the hook of their command, and runs no other program for those
  that it has found. -/
  key : ∀ found t, s.editor.installed = true →
    let word := String.ofList (Completion.word s.editor.line.before)
    let origin := Completion.origin s.registry s.editor.line
    origin.Spares call word → s.asked call = (.ok found, t) →
    if Completion.outcome s.editor.line found = .listed then
      (pressKey call .tab).result s = (origin.show call word found).result t
    else ∃ editor, (pressKey call .tab).result s = (.ok ⟨⟩, { t with editor })
  /-- Where looking for completions is given up, the key does no more either. -/
  givenUp : ∀ i t, s.editor.installed = true → s.asked call = (.error i, t) →
    (pressKey call .tab).result s = (.error i, t)

theorem attributionLaw_of_isSome (engine : s.completion.isSome = true) :
    AttributionLaw call s where
  attempt _ _ _ _ _ spares ended := attributed_of_complete engine rfl spares ended
  key found t installed := by
    intro word origin spares asked
    obtain ⟨left, present, attributed⟩ :=
      attributed_of_complete (s := s.onEditor fun e => { e with afterReturn := false }) engine
        (Completion.originAt_wordStart s.registry s.editor.line) spares asked
    have pressed := result_tab_cases installed (Option.isNone_eq_false_iff.2 engine) asked
    split at pressed
    · rename_i listed
      have some : found ≠ [] := by
        rintro rfl
        cases listed
      rw [if_pos listed, pressed]
      refine Completion.result_showCompletions _ ?_
      rw [present]
      exact attributed.hook some
    · rename_i apart
      rw [if_neg apart]
      exact pressed
  givenUp _ _ installed asked :=
    result_tab_of_error installed (Option.isNone_eq_false_iff.2 engine) asked

/-- However completion is attempted in whatever order, completions are shown by the hook of the
command that they come from. -/
theorem attributionLaw (depth : Nat) (b : Bench σ) (completes : b.shell.completion.isSome = true)
    (commands : b.shell.consumer = .commands) (before : List (Completion.Move σ)) :
    AttributionLaw (Program.exec depth) (b.after depth before).shell := by
  obtain ⟨walk, works⟩ := Bench.enumerates_of_commands depth completes commands before
  obtain ⟨engine, present, -⟩ := Option.map_eq_some_iff.1 works.1
  exact attributionLaw_of_isSome (Option.isSome_iff_exists.2 ⟨engine, present⟩)

def paintCommand : Command.Entry (Program Unit) :=
  { name := "paint", handler := fun _ => .skip
    generator := some fun _ n => .done (.candidate (["red", "rose"][n]?))
    displayHook := some fun _ _ _ => .skip }

def paintingBench : Bench Unit where
  shell := bareShell [paintCommand, steerCommand] ()
  walks _ := ⟨"", none⟩

/-- The shell has completed the arguments of a command with a hook, and then those of no command
that it has. -/
def repaintedShell : Session Unit :=
  (paintingBench.after 1 [.attempt "" 6 "paint ".toList, .attempt "" 6 "point ".toList]).shell

/-- The hook is still in place, but the attempt is over. The arguments of the next command are not
shown by it. -/
theorem attributed_repaintedShell : AttributionLaw (Program.exec 1) repaintedShell ∧
    repaintedShell.completion.map (fun e => (e.attemptOver, e.displayHook.isSome)) =
      some (true, true) ∧
    ∃ t engine, (complete (Program.exec 1) "n" 6 "steer n".toList).result repaintedShell =
        (.ok ["northeast", "northwest"], t) ∧
      t.completion = some engine ∧ engine.attemptOver = false ∧
      engine.displayHook.isNone = true := by
  have law : AttributionLaw (Program.exec 1) repaintedShell :=
    attributionLaw 1 paintingBench rfl rfl _
  have found : ((complete (Program.exec 1) "n" 6 "steer n".toList).result
      repaintedShell).1.toOption = some ["northeast", "northwest"] := by decide +kernel
  rcases ended : (complete (Program.exec 1) "n" 6 "steer n".toList).result repaintedShell with
    ⟨i | some, t⟩ <;> rw [ended] at found <;> cases found
  have origin : Completion.originAt repaintedShell.registry 6 "steer n".toList =
    .generator steerCommand fun _ n => .done (.candidate (["northeast", "northwest"][n]?)) := rfl
  have spares : (Completion.originAt repaintedShell.registry 6 "steer n".toList).Spares
      (Program.exec 1) "n" := by
    rw [origin]
    exact Completion.spares_of_aside fun _ => .done _
  obtain ⟨engine, present, attributed⟩ := law.attempt _ _ _ _ _ spares ended
  have goesOn : engine.attemptOver = false := by
    rw [← Bool.not_eq_true, attributed.nothing]
    simp
  have hook : engine.displayHook = none := by
    rw [attributed.hook (by simp), origin]
    rfl
  exact ⟨law, by decide +kernel, t, engine, rfl, present, goesOn, by rw [hook]; rfl⟩

end LineShell
