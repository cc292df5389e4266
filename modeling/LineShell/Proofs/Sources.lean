import LineShell.Proofs.Inputs
import LineShell.Proofs.Runs

/-!
# Sources in use

A source is opened, read and closed in any order, and at every step any calls of the terminal and of
the loop may be refused. As long as the terminal lets its mode be put back, a closed source has left
it in the mode of before the first opening, and an open source is watched.
-/

namespace LineShell

open Act Session

namespace Input

structure Refusals where
  terminal : List (TerminalCall × String) := []
  loop : List (LoopCall × Failure) := []

namespace Refusals

/-- The terminal lets its mode be put back. -/
def Restores (r : Refusals) : Prop := r.terminal.lookup .restoreMode = none

end Refusals

def Channel.refusing (p : Channel) (r : Refusals) : Channel :=
  { p with terminalFaults := r.terminal, loopFaults := r.loop }

inductive Call where
  | opening
  | closing
  /-- The loop reports that bytes can be read, or, if there are none, that the input has ended. -/
  | reading (bytes : List UInt8)

/-- A call of a source, some calls of the terminal and of the loop being refused meanwhile. -/
structure Use where
  call : Call
  refusals : Refusals := {}

namespace Source

def use (source : Source) (p : Channel) (u : Use) : Source × Channel :=
  let p := p.refusing u.refusals
  match u.call with
  | .opening => ((source.openOn p).source, (source.openOn p).channel)
  | .closing => ((source.closeOn p).source, (source.closeOn p).channel)
  | .reading bytes => (if p.watched then (source.receive bytes).2 else source, p)

def afterUses (source : Source) (p : Channel) (uses : List Use) : Source × Channel :=
  uses.foldl (fun sp u => sp.1.use sp.2 u) (source, p)

/-! ### What a step keeps -/

def Returns (source : Source) (p : Channel) (mode : Mode) : Prop :=
  source.savedMode = some mode ∨ source.savedMode = none ∧ p.mode = mode

/-- A closed source has left the terminal in a mode; an open one will do so when it is closed, and is
watched. -/
structure Guards (source : Source) (p : Channel) (mode : Mode) : Prop where
  closed : source.isOpen = false → source.savedMode = none ∧ p.mode = mode
  watched : source.isOpen = true → p.watched = true
  returns : source.Returns p mode

variable {source : Source} {p : Channel} {mode : Mode}

theorem Returns.takeTerminal (unsaved : source.savedMode = none) (present : p.mode = mode) :
    (source.takeTerminal p).source.Returns (source.takeTerminal p).channel mode := by
  unfold Source.takeTerminal
  split
  · exact .inr ⟨unsaved, present⟩
  · simp only
    split
    · exact .inr ⟨rfl, present⟩
    · exact .inr ⟨rfl, present⟩
    · exact .inl (congrArg some present)

theorem Returns.releaseTerminal (h : source.Returns p mode)
    (granted : p.terminalFaults.lookup .restoreMode = none) :
    (source.releaseTerminal p).source.savedMode = none ∧
      (source.releaseTerminal p).channel.mode = mode := by
  unfold Source.releaseTerminal
  rcases h with saved | ⟨unsaved, present⟩
  · simp [saved, granted]
  · simp [unsaved, present]

theorem terminalFaults_takeTerminal (source : Source) (p : Channel) :
    (source.takeTerminal p).channel.terminalFaults = p.terminalFaults := by
  unfold Source.takeTerminal
  split
  · rfl
  · simp only
    split <;> rfl

/-- An opening that fails puts the mode back; one that succeeds registers the reader. -/
theorem Guards.openOn (h : source.Guards p mode)
    (granted : p.terminalFaults.lookup .restoreMode = none) :
    (source.openOn p).source.Guards (source.openOn p).channel mode := by
  cases opened : source.isOpen with
  | true =>
      rw [show source.openOn p = { source, channel := p } from if_pos opened]
      exact h
  | false =>
      obtain ⟨unsaved, present⟩ := h.closed opened
      have taken : (source.takeTerminal p).source.Returns (source.takeTerminal p).channel mode :=
        Returns.takeTerminal unsaved present
      obtain ⟨same, -, -⟩ := source.takeTerminal_eq p
      have faults := source.terminalFaults_takeTerminal p
      unfold Source.openOn
      rw [if_neg (by simp [opened])]
      generalize source.takeTerminal p = t at taken same faults
      simp only
      split
      · obtain ⟨released, left⟩ := taken.releaseTerminal (faults ▸ granted)
        have closed := (t.source.releaseTerminal_eq t.channel).1.trans (same.trans opened)
        exact ⟨fun _ => ⟨released, left⟩, fun isOpen => (nomatch closed.symm.trans isOpen),
          .inr ⟨released, left⟩⟩
      · exact ⟨fun closed => (nomatch closed), fun _ => rfl, taken⟩

/-- The mode is put back whether or not the loop stops watching. -/
theorem Guards.closeOn (h : source.Guards p mode)
    (granted : p.terminalFaults.lookup .restoreMode = none) :
    (source.closeOn p).source.Guards (source.closeOn p).channel mode := by
  cases opened : source.isOpen with
  | false =>
      rw [show source.closeOn p = { source, channel := p } from if_pos (by simp [opened])]
      exact h
  | true =>
      have released : ∀ q : Channel, q.mode = p.mode → q.terminalFaults = p.terminalFaults →
          (({ source with isOpen := false } : Source).releaseTerminal q).source.Guards
            (({ source with isOpen := false } : Source).releaseTerminal q).channel mode := by
        intro q present faults
        have returns : ({ source with isOpen := false } : Source).Returns q mode := by
          rcases h.returns with saved | ⟨unsaved, before⟩
          · exact .inl saved
          · exact .inr ⟨unsaved, present.trans before⟩
        obtain ⟨unsaved, left⟩ := returns.releaseTerminal (faults ▸ granted)
        have closed := (({ source with isOpen := false } : Source).releaseTerminal_eq q).1
        exact ⟨fun _ => ⟨unsaved, left⟩, fun isOpen => (nomatch closed.symm.trans isOpen),
          .inr ⟨unsaved, left⟩⟩
      unfold Source.closeOn
      rw [if_neg (by simp [opened])]
      simp only
      split
      · exact released p rfl rfl
      · exact released { p with watched := false } rfl rfl

theorem Guards.use (h : source.Guards p mode) {u : Use} (restores : u.refusals.Restores) :
    (source.use p u).1.Guards (source.use p u).2 mode := by
  have refused : source.Guards (p.refusing u.refusals) mode := ⟨h.closed, h.watched, h.returns⟩
  unfold Source.use
  cases u.call with
  | opening => exact refused.openOn restores
  | closing => exact refused.closeOn restores
  | reading bytes =>
      -- A reading changes the decoder at most.
      simp only
      split
      · unfold receive
        split
        · exact refused
        · exact ⟨h.closed, h.watched, h.returns⟩
      · exact refused

theorem Guards.afterUses (h : source.Guards p mode) {uses : List Use}
    (restores : ∀ u ∈ uses, u.refusals.Restores) :
    (source.afterUses p uses).1.Guards (source.afterUses p uses).2 mode := by
  induction uses generalizing source p with
  | nil => exact h
  | cons u uses ih =>
      exact ih (h.use (restores u (List.mem_cons_self ..))) fun v hv =>
        restores v (List.mem_cons_of_mem _ hv)

end Source

end Input

/-! ### The input of a shell -/

variable {σ : Type}

/-- An attempt to take an input that fails leaves the shell without one, and the terminal as it
was. -/
theorem channel_of_attach_error {s t : Session σ} {descriptor : Nat} {i : Interrupt}
    (granted : s.channel.terminalFaults.lookup .restoreMode = none)
    (failed : (attach descriptor).result s = (.error i, t)) :
    t.input = none ∧ t.channel.mode = s.channel.mode := by
  simp only [attach, result_get_bind] at failed
  split at failed
  · cases failed
  · rename_i free
    have idle : s.input = none := by simpa using free
    split at failed
    · cases failed
      exact ⟨idle, rfl⟩
    · have new : (Input.Source.mk descriptor false none .start).Guards s.channel s.channel.mode :=
        ⟨fun _ => ⟨rfl, rfl⟩, fun h => absurd h Bool.false_ne_true, .inr ⟨rfl, rfl⟩⟩
      have guards := new.openOn granted
      obtain ⟨failure, isOpen, -⟩ := Input.Source.openOn_eq
        (show (Input.Source.mk descriptor false none .start).isOpen = false from rfl) s.channel
      generalize (Input.Source.mk descriptor false none .start).openOn s.channel = o
        at failed guards failure isOpen
      obtain ⟨_, _, _, logged⟩ :=
        logAll_frame { s with channel := o.channel } o.events
      simp only [result_modify_bind, logged] at failed
      rw [failure] at failed
      cases fault : s.channel.loopFaults.lookup .watch with
      | none =>
          rw [fault] at failed
          cases failed
      | some f =>
          rw [fault] at failed isOpen
          cases failed
          exact ⟨idle, (guards.closed isOpen).2⟩

/-- Through any uses of a new source, whatever calls are refused as long as the terminal lets its
mode be put back: whenever the source is closed the terminal is in the mode it had before, and
whenever it is open its reader is registered. An attempt of a shell to take an input that fails
leaves it without one, and the terminal as it was. -/
theorem mode_of_uses {source : Input.Source} {p : Input.Channel} {uses : List Input.Use}
    (new : source.isOpen = false) (unsaved : source.savedMode = none)
    (restores : ∀ u ∈ uses, u.refusals.Restores) :
    ((source.afterUses p uses).1.isOpen = false → (source.afterUses p uses).2.mode = p.mode) ∧
    ((source.afterUses p uses).1.isOpen = true → (source.afterUses p uses).2.watched = true) ∧
    ∀ (s t : Session σ) (descriptor : Nat) (i : Interrupt),
      s.channel.terminalFaults.lookup .restoreMode = none →
      (attach descriptor).result s = (.error i, t) →
      t.input = none ∧ t.channel.mode = s.channel.mode := by
  have start : source.Guards p p.mode :=
    ⟨fun _ => ⟨unsaved, rfl⟩, fun h => (nomatch new.symm.trans h), .inr ⟨unsaved, rfl⟩⟩
  have guards := start.afterUses restores
  exact ⟨fun closed => (guards.closed closed).2, guards.watched,
    fun s t descriptor i granted failed => channel_of_attach_error granted failed⟩

/-- The loop goes on watching a source that is closed, then cannot watch it, and then the terminal
stays as it is when the source is opened again. -/
def refusedUses : List Input.Use :=
  [⟨.opening, {}⟩,
    ⟨.closing, { loop := [(.unwatch, .raised .runtime "unavailable")] }⟩,
    ⟨.opening, { loop := [(.watch, .raised .runtime "unavailable")] }⟩,
    ⟨.opening, { terminal := [(.setImmediate, "failed")] }⟩]

/-- A shell that could take an input of a terminal if the loop could watch it. -/
def unwatchedShell : Session Unit :=
  { (bareShell [] ()).beginRun with
    channel := { isTerminal := true, loopFaults := [(.watch, .raised .runtime "unavailable")] } }

theorem mode_refusedUses :
    let after (n : Nat) := (Input.Source.mk 7 false none .start).afterUses { isTerminal := true }
      (refusedUses.take n)
    (after 1).2.mode = .immediate ∧ (after 2).1.isOpen = false ∧ (after 2).2.mode = .cooked ∧
      (after 3).1.isOpen = false ∧ (after 3).2.mode = .cooked ∧
      (after 4).1.isOpen = true ∧ (after 4).2.watched = true ∧
      ((attach 7).result unwatchedShell).2.input = none ∧
      ((attach 7).result unwatchedShell).2.channel.mode = .cooked := by
  have restores : ∀ n, ∀ u ∈ refusedUses.take n, u.refusals.Restores := by
    intro n u hu
    have member := List.mem_of_mem_take hu
    simp only [refusedUses, List.mem_cons, List.not_mem_nil, or_false] at member
    rcases member with rfl | rfl | rfl | rfl <;> rfl
  have law (n : Nat) := @mode_of_uses Unit ⟨7, false, none, .start⟩ { isTerminal := true }
    (refusedUses.take n) rfl rfl (restores n)
  obtain ⟨-, -, attached⟩ := law 0
  obtain ⟨input, mode⟩ := attached unwatchedShell _ 7 _ rfl rfl
  exact ⟨rfl, rfl, (law 2).1 rfl, rfl, (law 3).1 rfl, rfl, (law 4).2.1 rfl, input, mode⟩

end LineShell
