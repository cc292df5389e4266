import LineShell.Proofs.Collecting
import LineShell.Proofs.Courses
import LineShell.Proofs.Walking
import Mathlib

/-!
# Names, one at a time

The names of commands that begin with a text are had in three ways: an attempt at completion finds
them all at the beginning of a line, the completer is asked for one after the other, and a walk goes
over them. A walk looks the names up at its first step. From then on it is moved by its own steps
alone, and it may begin afresh at any moment. So is the walk of the completer, which number zero
begins.
-/

namespace LineShell

open Act Session

variable {σ π : Type} {depth : Nat} {s t : Session σ} {found : List String} {k : Nat}

namespace Completion

/-! ### Walks -/

namespace Walk

variable {w : Walk} {r : Command.Registry π}

def At (found : List String) (k : Nat) (w : Walk) : Prop := w.rest = some (found.drop k)

theorem At.remaining (h : w.At found k) (r : Command.Registry π) :
    w.remaining r = found.drop k := by
  rw [Walk.remaining, show w.rest = some (found.drop k) from h, Option.getD_some]

theorem remaining_of_rest (fresh : w.rest = none) (r : Command.Registry π) :
    w.remaining r = (r.namesFrom w.text).drop 0 := by
  rw [remaining, fresh, Option.getD_none, List.drop_zero]

theorem next_of_remaining (h : w.remaining r = found.drop k) :
    (w.next r).1 = found[k]? ∧ (w.next r).2.At found (k + 1) := by
  constructor
  · simp [next, h]
  · simp [next, At, h]

theorem drain_of_remaining (h : w.remaining r = found.drop k) :
    (w.drain r).1 = found.drop k ∧ (w.drain r).2.At found (k + found.length) := by
  constructor
  · simp [drain, h]
  · simp [drain, At]

end Walk

end Completion

/-! ### The walk of the completer -/

namespace Session

def askName (s : Session σ) (text : String) (number : Int) : Option String × Session σ :=
  match s.completion with
  | none => (none, s)
  | some engine =>
    let (name, engine) := engine.completer s.registry text number
    (name, { s with completion := some engine })

/-- A shell has a completer, and this is on some walk or has not begun one. -/
def HasWalk (walk : Option Completion.Walk) (s : Session σ) : Prop :=
  s.completion.map (·.walk) = some walk

end Session

variable {walk : Option Completion.Walk}

theorem unattached_hasWalk : Unattached (σ := σ) (HasWalk walk) where
  inlet _ _ _ h := h
  handlers h := h
  torn h := h
  left h := h
  ended h := h

theorem hasWalk_change {f : Session σ → Session σ} (h : s.HasWalk walk)
    (c : Change freeRules s f) : (f s).HasWalk walk := by
  cases c with
  | prompt text =>
      simp only [Session.setPrompt]
      split <;> exact h
  | _ => exact h

theorem keys_hasWalk : KeysPreserve (σ := σ) freeRules (HasWalk walk) (HasWalk walk)
    fun _ => HasWalk walk where
  change h c := by
    cases c with
    | hook | attempt => simpa [HasWalk, setDisplayHook, setAttemptOver, Function.comp_def] using h
    | _ => exact h
  failed h := h
  begin h _ := h
  leave h := h
  givenUp h _ := h
  endInput h := h
  drop h _ := h
  broken h := h

theorem closed_hasWalk : Closed freeRules (Invariant (σ := σ) freeRules (HasWalk walk)) :=
  unattached_hasWalk.toClosed hasWalk_change keys_hasWalk (fun h _ _ => h) id id fun _ => id

def Session.Enumerates (walk : Option Completion.Walk) (s : Session σ) : Prop :=
  s.HasWalk walk ∧ s.Follows freeRules

theorem Session.offers_any (s : Session σ) : s.Offers fun _ => True where
  generators _ _ _ _ _ _ _ _ := trivial
  hooks _ _ _ _ _ _ _ _ _ := trivial
  shown _ _ _ _ _ _ _ := trivial

namespace Session.Enumerates

theorem congr (h : s.Enumerates walk) (completion : t.completion = s.completion)
    (consumer : t.consumer = s.consumer) : t.Enumerates walk :=
  ⟨by rw [HasWalk, completion]; exact h.1, follows_free (consumer.trans h.2.consumer)⟩

theorem run (h : s.Enumerates walk) (p : Program σ) :
    ((p.exec depth).result s).2.Enumerates walk :=
  closed_hasWalk.left depth p.follows_free h

theorem engine (h : s.Enumerates walk)
    (change : Completion.Engine (Program σ) → Completion.Engine (Program σ))
    (still : ∀ engine, (change engine).walk = engine.walk) :
    ({ s with completion := s.completion.map change } : Session σ).Enumerates walk := by
  refine ⟨?_, follows_free h.2.consumer⟩
  simpa [HasWalk, Function.comp_def, still] using h.1

theorem searches : Searches (Program.exec (σ := σ) depth) (Enumerates walk) (fun _ => True)
    fun _ => Enumerates walk :=
  searches_of_offers (fun {s} _ => s.offers_any)
    (fun {s} event h => by
      obtain ⟨_, _, _, logged⟩ := s.log_frame event
      rw [logged]
      exact h.congr rfl rfl)
    (fun nothing h => h.engine (fun e => { e with attemptOver := nothing }) fun _ => rfl)
    (fun hook _ h => h.engine (fun e => { e with displayHook := hook }) fun _ => rfl)
    (fun {_ p} _ h => leaves_iff.2 (h.run p)) (fun _ h => h.congr rfl rfl)
    fun h => h.congr rfl rfl

/-- An attempt does not move the walk of the completer, however it ends. -/
theorem attempt (h : s.Enumerates walk) (text : String) (start : Int) (line : List Char) :
    ((complete (Program.exec depth) text start line).result s).2.Enumerates walk :=
  (searches.complete text start line h).last fun _ _ ht => ht.1

/-- The completer answers with the next name of its walk, which number zero begins. -/
theorem askName (h : s.Enumerates walk) (text : String) (number : Int)
    (ahead : (if number = 0 then ⟨text, none⟩ else walk.getD ⟨text, none⟩ :
      Completion.Walk).remaining s.registry = found.drop k) :
    (s.askName text number).1 = found[k]? ∧
      ∃ w, (s.askName text number).2.Enumerates (some w) ∧ w.At found (k + 1) := by
  obtain ⟨engine, present, rfl⟩ := Option.map_eq_some_iff.1 h.1
  obtain ⟨name, rest⟩ := Completion.Walk.next_of_remaining ahead
  simp only [Session.askName, present, Completion.Engine.completer]
  exact ⟨name, _, ⟨rfl, follows_free h.2.consumer⟩, rest⟩

end Session.Enumerates

/-! ### Names asked for in any order -/

namespace Completion

/-- What is done in turn with the names of commands, and beside them. -/
inductive Move (σ : Type) where
  /-- Completions are looked for, be it of a text or of the word under the cursor. -/
  | attempt (text : String) (start : Int) (line : List Char)
  /-- A program is run, which may feed keys and offer a menu. -/
  | program (p : Program σ)
  /-- The completer is asked for a name. -/
  | name (text : String) (number : Int)
  /-- A walk begins afresh, with another text if one is given. -/
  | reset (id : Nat) (text : Option String)
  /-- A walk is asked for its next name. -/
  | next (id : Nat)
  /-- A walk is asked for all names that are left. -/
  | drain (id : Nat)

namespace Move

def Begins : Move σ → Prop
  | .name _ number => number = 0
  | _ => False

/-- How many names the completer is asked for. -/
def asks : Move σ → Nat
  | .name .. => 1
  | _ => 0

def Resets (id : Nat) : Move σ → Prop
  | .reset i _ => i = id
  | _ => False

/-- How far a walk over `n` names is moved. -/
def takes (id n : Nat) : Move σ → Nat
  | .next i => if i = id then 1 else 0
  | .drain i => if i = id then n else 0
  | _ => 0

/-- A walk is moved. -/
def Steps (id : Nat) (m : Move σ) : Prop := m = .next id ∨ m = .drain id

end Move

end Completion

/-- A shell, and walks over the names of its commands. -/
structure Bench (σ : Type) where
  shell : Session σ
  walks : Nat → Completion.Walk

namespace Bench

open Completion

variable {b : Bench σ} {m : Move σ} {moves : List (Move σ)} {id : Nat}

def move (depth : Nat) (b : Bench σ) : Move σ → Bench σ
  | .attempt text start line =>
    { b with shell := ((complete (Program.exec depth) text start line).result b.shell).2 }
  | .program p => { b with shell := ((p.exec depth).result b.shell).2 }
  | .name text number => { b with shell := (b.shell.askName text number).2 }
  | .reset id text => { b with walks := Function.update b.walks id ((b.walks id).reset text) }
  | .next id =>
    { b with walks := Function.update b.walks id ((b.walks id).next b.shell.registry).2 }
  | .drain id =>
    { b with walks := Function.update b.walks id ((b.walks id).drain b.shell.registry).2 }

def after (depth : Nat) (b : Bench σ) (moves : List (Move σ)) : Bench σ :=
  moves.foldl (move depth) b

def names (b : Bench σ) (text : String) : List String := b.shell.registry.namesFrom text

def name (b : Bench σ) (text : String) (number : Int) : Option String :=
  (b.shell.askName text number).1

def next (b : Bench σ) (id : Nat) : Option String := ((b.walks id).next b.shell.registry).1

def left (b : Bench σ) (id : Nat) : List String := ((b.walks id).drain b.shell.registry).1

/-! The completer -/

/-- The completer has begun to go over some names, and those from a place on are still before it. -/
def Asking (b : Bench σ) (found : List String) (k : Nat) : Prop :=
  ∃ w, b.shell.Enumerates (some w) ∧ w.At found k

/-- No move but a new beginning has the completer answer with another than its next name. -/
theorem Asking.move (h : b.Asking found k) (on : ¬ m.Begins) :
    (b.move depth m).Asking found (k + m.asks) := by
  obtain ⟨w, asks, ahead⟩ := h
  cases m with
  | attempt text start line => exact ⟨w, asks.attempt text start line, ahead⟩
  | program p => exact ⟨w, asks.run p, ahead⟩
  | name text number =>
      have later : number ≠ 0 := on
      refine (asks.askName text number ?_).2
      rw [if_neg later]
      exact ahead.remaining b.shell.registry
  | reset | next | drain => exact ⟨w, asks, ahead⟩

theorem Asking.after (h : b.Asking found k) (on : ∀ m ∈ moves, ¬ m.Begins) :
    (b.after depth moves).Asking found (k + (moves.map Move.asks).sum) := by
  induction moves generalizing b k with
  | nil => exact h
  | cons m moves ih =>
      obtain ⟨first, others⟩ := List.forall_mem_cons.1 on
      rw [List.map_cons, List.sum_cons, ← Nat.add_assoc]
      exact ih (h.move first) others

theorem Asking.name (h : b.Asking found k) (text : String) {number : Int} (on : number ≠ 0) :
    b.name text number = found[k]? := by
  obtain ⟨w, asks, ahead⟩ := h
  refine (asks.askName text number ?_).1
  rw [if_neg on]
  exact ahead.remaining b.shell.registry

/-! Walks -/

/-- Only its own moves change a walk. -/
theorem walks_move (apart : ¬ m.Resets id ∧ ¬ m.Steps id) :
    (b.move depth m).walks id = b.walks id := by
  obtain ⟨kept, still⟩ := apart
  cases m with
  | reset i text => exact Function.update_of_ne (Ne.symm kept) ..
  | next i =>
      refine Function.update_of_ne ?_ ..
      rintro rfl
      exact still (.inl rfl)
  | drain i =>
      refine Function.update_of_ne ?_ ..
      rintro rfl
      exact still (.inr rfl)
  | attempt | program | name => rfl

theorem walks_after (apart : ∀ m ∈ moves, ¬ m.Resets id ∧ ¬ m.Steps id) :
    (b.after depth moves).walks id = b.walks id := by
  induction moves generalizing b with
  | nil => rfl
  | cons m moves ih =>
      obtain ⟨first, others⟩ := List.forall_mem_cons.1 apart
      exact (ih others).trans (walks_move first)

/-- A walk that is moved goes over the next of its names, or over all that are left. -/
theorem at_move_of_steps (depth : Nat) (steps : m.Steps id)
    (ahead : (b.walks id).remaining b.shell.registry = found.drop k) :
    ((b.move depth m).walks id).At found (k + m.takes id found.length) := by
  rcases steps with rfl | rfl
  · simp only [move, Function.update_self, Move.takes, if_true]
    exact (Walk.next_of_remaining ahead).2
  · simp only [move, Function.update_self, Move.takes, if_true]
    exact (Walk.drain_of_remaining ahead).2

theorem at_move (depth : Nat) (h : (b.walks id).At found k) (kept : ¬ m.Resets id) :
    ((b.move depth m).walks id).At found (k + m.takes id found.length) := by
  by_cases steps : m.Steps id
  · exact at_move_of_steps depth steps (h.remaining b.shell.registry)
  · have none : m.takes id found.length = 0 := by
      cases m with
      | next i => exact if_neg fun same => steps (.inl (congrArg Move.next same))
      | drain i => exact if_neg fun same => steps (.inr (congrArg Move.drain same))
      | attempt | program | name | reset => rfl
    rw [none, Nat.add_zero, walks_move ⟨kept, steps⟩]
    exact h

theorem at_after (depth : Nat) (h : (b.walks id).At found k) (kept : ∀ m ∈ moves, ¬ m.Resets id) :
    ((b.after depth moves).walks id).At found
      (k + (moves.map (Move.takes id found.length)).sum) := by
  induction moves generalizing b k with
  | nil => exact h
  | cons m moves ih =>
      obtain ⟨first, others⟩ := List.forall_mem_cons.1 kept
      rw [List.map_cons, List.sum_cons, ← Nat.add_assoc]
      exact ih (at_move depth h first) others

theorem enumerates_after (depth : Nat) (h : b.shell.Enumerates walk) (moves : List (Move σ)) :
    ∃ walk, (b.after depth moves).shell.Enumerates walk := by
  induction moves generalizing b walk with
  | nil => exact ⟨walk, h⟩
  | cons m moves ih =>
      cases m with
      | attempt text start line => exact ih (h.attempt text start line)
      | program p => exact ih (h.run p)
      | name text number =>
          obtain ⟨-, w, asks, -⟩ := h.askName text number List.drop_zero.symm
          exact ih asks
      | reset | next | drain => exact ih h

/-- A shell that has a completer keeps it, whatever moves are made. -/
theorem enumerates_of_commands (depth : Nat) (completes : b.shell.completion.isSome = true)
    (commands : b.shell.consumer = .commands) (moves : List (Move σ)) :
    ∃ walk, (b.after depth moves).shell.Enumerates walk := by
  obtain ⟨engine, present⟩ := Option.isSome_iff_exists.1 completes
  have begun : b.shell.Enumerates engine.walk :=
    ⟨by rw [HasWalk, present, Option.map_some], follows_free commands⟩
  exact enumerates_after depth begun moves

end Bench

/-! ### The law -/

/-- How the names of commands are enumerated, from a state of a bench on. -/
structure EnumerationLaw (depth : Nat) (b : Bench σ) : Prop where
  /-- Those of the default table come before those of the menu. -/
  ordered : ∀ text, b.names text =
    (b.shell.registry.defaults.names ++ b.shell.registry.menu.elim [] (·.names)).filter
      fun name => text.toList.isPrefixOf name.toList
  /-- Completion finds them all at the beginning of any line. -/
  listed : ∀ text line, ∃ t,
    (complete (Program.exec depth) text 0 line).result b.shell = (.ok (b.names text), t)
  /-- The completer begins with the first name at number zero, -/
  first : ∀ text, b.name text 0 = (b.names text)[0]?
  /-- and answers with the next name each time, until there are no more, whatever moves are made
  in between, as long as it is not asked by number zero again. -/
  later : ∀ text moves text' number, (∀ m ∈ moves, ¬ m.Begins) → number ≠ 0 →
    (b.after depth (.name text 0 :: moves)).name text' number =
      (b.names text)[(moves.map Completion.Move.asks).sum + 1]?
  /-- A walk that is reset begins afresh. -/
  afresh : ∀ id text moves, (∀ m ∈ moves, ¬ m.Resets id ∧ ¬ m.Steps id) →
    (b.after depth (.reset id text :: moves)).walks id = ⟨text.getD (b.walks id).text, none⟩
  /-- A walk that has not begun yet has all names before it, -/
  begins : ∀ id, (b.walks id).rest = none →
    b.next id = (b.names (b.walks id).text)[0]? ∧ b.left id = b.names (b.walks id).text
  /-- and goes over those that are there at its first step, in order and each of them once, whatever
  moves are made in between, as long as it is not reset. -/
  onward : ∀ id m moves, (b.walks id).rest = none → m.Steps id → (∀ m ∈ moves, ¬ m.Resets id) →
    let found := b.names (b.walks id).text
    let taken := ((m :: moves).map (Completion.Move.takes id found.length)).sum
    (b.after depth (m :: moves)).next id = found[taken]? ∧
      (b.after depth (m :: moves)).left id = found.drop taken

theorem Bench.enumerationLaw_of_enumerates {b : Bench σ} (h : b.shell.Enumerates walk) :
    EnumerationLaw depth b where
  ordered text := by
    rw [Bench.names, Command.Registry.namesFrom, Command.Registry.tables]
    cases b.shell.registry.menu <;> simp
  listed text line := by
    obtain ⟨t, found, -⟩ := Completion.result_complete_names (Program.exec depth) text line b.shell
    exact ⟨t, found⟩
  first text := (h.askName text 0 List.drop_zero.symm).1
  later text moves text' number on later := by
    obtain ⟨-, w, asks, ahead⟩ := h.askName text 0 List.drop_zero.symm
    have begun : (b.move depth (.name text 0)).Asking (b.names text) (0 + 1) := ⟨w, asks, ahead⟩
    rw [Nat.add_comm, ← Nat.zero_add 1]
    exact (begun.after on).name text' later
  afresh id text moves apart := by
    refine (Bench.walks_after apart).trans ?_
    exact Function.update_self ..
  begins id fresh := by
    have ahead := Completion.Walk.remaining_of_rest fresh b.shell.registry
    exact ⟨(Completion.Walk.next_of_remaining ahead).1,
      (Completion.Walk.drain_of_remaining ahead).1.trans List.drop_zero⟩
  onward id m moves fresh steps kept := by
    have ahead := Completion.Walk.remaining_of_rest fresh b.shell.registry
    have begun := Bench.at_move_of_steps depth steps ahead
    rw [Nat.zero_add] at begun
    have on := Bench.at_after depth begun kept
    have there := on.remaining (b.after depth (m :: moves)).shell.registry
    exact ⟨(Completion.Walk.next_of_remaining there).1,
      (Completion.Walk.drain_of_remaining there).1⟩

/-- Whatever has been done before: the three ways to have the names of commands agree on them and on
their order, and none of them gets into the way of another. -/
theorem enumerationLaw (depth : Nat) (b : Bench σ) (completes : b.shell.completion.isSome = true)
    (commands : b.shell.consumer = .commands) (before : List (Completion.Move σ)) :
    EnumerationLaw depth (b.after depth before) := by
  obtain ⟨walk, works⟩ := Bench.enumerates_of_commands depth completes commands before
  exact Bench.enumerationLaw_of_enumerates works

/-- A shell with one command beside the default ones, and walks over the names of all of them. -/
def countingBench : Bench Nat where
  shell := bareShell [Completion.countingCommand fun _ _ => none] 0
  walks _ := ⟨"", none⟩

/-- The completer is asked between attempts and the steps of a walk, and by numbers in disorder. It
goes on with its third name; the walk, which was at its end, has all of them before it again. -/
theorem enumerated_countingBench :
    EnumerationLaw 1 (countingBench.after 1 [.name "h" 0, .drain 0]) ∧
    (countingBench.after 1 [.name "h" 0, .drain 0, .name "" 0, .attempt "x" 3 "go x".toList,
      .next 0, .name "h" 7]).name "" 2 = some "exit" ∧
    (countingBench.after 1 [.name "h" 0, .drain 0, .reset 0 none]).left 0 =
      ["version", "quit", "exit", "help", "go"] := by
  have law := enumerationLaw 1 countingBench rfl rfl
  have third := (law [.name "h" 0, .drain 0]).later ""
    [.attempt "x" 3 "go x".toList, .next 0, .name "h" 7] "" 2 (by simp [Completion.Move.Begins])
    (by decide)
  have again := (law [.name "h" 0, .drain 0, .reset 0 none]).begins 0 rfl
  exact ⟨law _, third.trans (by decide), again.2.trans (by decide)⟩

end LineShell
