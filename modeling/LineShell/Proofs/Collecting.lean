import LineShell.Proofs.CommandWord
import Mathlib.Data.List.Basic

/-!
# Completions from a generator

A generator is asked by numbers, from zero on, and each number is asked once. What it answers is
taken until it answers that there is nothing, which ends the asking, and no further than the limit.
It may be any program, and it may have completions without end.
-/

namespace LineShell

open Act Session

variable {σ : Type} {call : Program σ → Act σ Reply} {ask : Nat → Program σ}
  {g : String → Nat → Program σ} {e : Command.Entry (Program σ)} {text : String} {start : Int}
  {line : List Char} {found : List String} {s t : Session σ} {n left : Nat}

/-! ### Asking by numbers -/

namespace Completion

/-- Asked by the numbers from `n` on, programs answer with some completions, one for each number,
and lead from a state to another. -/
inductive Yields (call : Program σ → Act σ Reply) (ask : Nat → Program σ) :
    Nat → Session σ → List String → Session σ → Prop
  | nil {n : Nat} {s : Session σ} : Yields call ask n s [] s
  | cons {n : Nat} {s t u : Session σ} {c : String} {found : List String}
      (answered : (call (ask n)).result s = (.ok (.candidate (some c)), t))
      (rest : Yields call ask (n + 1) t found u) : Yields call ask n s (c :: found) u

/-- The answer to a number is no completion, or there is no answer. -/
def Ends (call : Program σ → Act σ Reply) (p : Program σ) (s : Session σ) : Prop :=
  ∀ c t, (call p).result s ≠ (.ok (.candidate (some c)), t)

theorem exists_yields (call : Program σ → Act σ Reply) (ask : Nat → Program σ) (left n : Nat)
    (s : Session σ) : ∃ found t, Yields call ask n s found t ∧ found.length ≤ left ∧
      (found.length < left → Ends call (ask (n + found.length)) t) := by
  induction left generalizing n s with
  | zero => exact ⟨[], s, .nil, Nat.le_refl 0, fun less => absurd less (Nat.lt_irrefl 0)⟩
  | succ left ih =>
      by_cases ends : Ends call (ask n) s
      · exact ⟨[], s, .nil, Nat.zero_le _, fun _ => ends⟩
      · obtain ⟨c, t, answered⟩ :
            ∃ c t, (call (ask n)).result s = (.ok (.candidate (some c)), t) := by
          simpa [Ends] using ends
        obtain ⟨found, u, yields, bounded, last⟩ := ih (n + 1) t
        refine ⟨c :: found, u, .cons answered yields, Nat.succ_le_succ bounded, fun less => ?_⟩
        have ends := last (Nat.lt_of_succ_lt_succ less)
        rwa [List.length_cons, Nat.add_comm found.length 1, ← Nat.add_assoc]

def truncation (text : String) : Log.Event :=
  ⟨.warning, "Completion generator truncated", [("text", .text text), ("limit", .int limit)]⟩

theorem collect_of_answer {c : String} (answered : (call (g text n)).result s =
    (.ok (.candidate (some c)), t)) : (collect call g text (left + 1) n).result s =
      match (collect call g text left (n + 1)).result t with
      | (.ok rest, u) => (.ok (c :: rest), u)
      | (.error i, u) => (.error i, u) := by
  rw [collect, result_bind, answered]
  simp only
  rw [result_bind]
  rcases (collect call g text left (n + 1)).result t with ⟨_ | _, u⟩ <;> rfl

/-- The completions that a generator has answered with are taken in order. -/
theorem collect_of_yields (left : Nat) (yields : Yields call (g text) n s found t) :
    (collect call g text (found.length + left) n).result s =
      match (collect call g text left (n + found.length)).result t with
      | (.ok rest, u) => (.ok (found ++ rest), u)
      | (.error i, u) => (.error i, u) := by
  induction yields with
  | nil =>
      simp only [List.length_nil, Nat.zero_add, Nat.add_zero, List.nil_append]
      split <;> assumption
  | @cons n s t u c found answered _ ih =>
      have more : (c :: found).length + left = found.length + left + 1 := by
        simp only [List.length_cons]
        omega
      have behind : n + 1 + found.length = n + (c :: found).length := by
        simp only [List.length_cons]
        omega
      rw [more, collect_of_answer answered, ih, behind]
      rcases (collect call g text left (n + (c :: found).length)).result u with ⟨_ | _, v⟩ <;> rfl

/-- Where no completion is answered nothing more is asked. -/
theorem collect_of_ends (ends : Ends call (g text n) s) :
    (collect call g text (left + 1) n).result s =
      match (call (g text n)).result s with
      | (.ok _, t) => (.ok [], t)
      | (.error i, t) => (.error i, t) := by
  rw [collect, result_bind]
  rcases answered : (call (g text n)).result s with ⟨i | reply, t⟩
  · rfl
  · simp only
    split
    · rename_i c
      exact absurd answered (ends c t)
    · rfl

/-- A generator that has a completion for each number below the limit is not asked for another one,
which is logged. -/
theorem collect_of_full (yields : Yields call (g text) 0 s found t) (full : found.length = limit) :
    (collect call g text limit 0).result s = (.ok found, t.log (truncation text)) := by
  have taken := collect_of_yields 0 yields
  rw [Nat.add_zero, full] at taken
  rw [taken, collect]
  simp only [truncation, result_modify_bind, result_pure, List.append_nil]

/-- Behind the number without a completion that ends it, a generator is not asked any more. -/
theorem collect_of_short (yields : Yields call (g text) 0 s found t) (less : found.length < limit)
    (ends : Ends call (g text found.length) t) : (collect call g text limit 0).result s =
      match (call (g text found.length)).result t with
      | (.ok _, u) => (.ok found, u)
      | (.error i, u) => (.error i, u) := by
  obtain ⟨more, whole⟩ : ∃ more, limit = found.length + (more + 1) :=
    ⟨limit - found.length - 1, by omega⟩
  have taken := collect_of_yields (more + 1) yields
  rw [← whole, Nat.zero_add, collect_of_ends ends] at taken
  rw [taken]
  rcases (call (g text found.length)).result t with ⟨_ | _, u⟩
  · rfl
  · simp only [List.append_nil]

/-- How a generator is asked for the completions of a text: it has yielded some, and the session is
`t` then. -/
structure Asked (call : Program σ → Act σ Reply) (g : String → Nat → Program σ) (text : String)
    (s : Session σ) (found : List String) (t : Session σ) : Prop where
  /-- It has been asked by the numbers from zero on, and has had a completion for each of them. -/
  yields : Yields call (g text) 0 s found t
  bounded : found.length ≤ limit
  /-- At the limit nothing more is asked. -/
  full : found.length = limit →
    (collect call g text limit 0).result s = (.ok found, t.log (truncation text))
  /-- Before it, one number more has been asked, for which there was no completion. -/
  last : found.length < limit → Ends call (g text found.length) t ∧
    (collect call g text limit 0).result s =
      match (call (g text found.length)).result t with
      | (.ok _, u) => (.ok found, u)
      | (.error i, u) => (.error i, u)

/-- Whatever a generator does, its completions are taken in order, up to the first number without
one, or up to the limit. -/
theorem asked (call : Program σ → Act σ Reply) (g : String → Nat → Program σ) (text : String)
    (s : Session σ) : ∃ found t, Asked call g text s found t := by
  obtain ⟨found, t, yields, bounded, last⟩ := exists_yields call (g text) limit 0 s
  refine ⟨found, t, yields, bounded, collect_of_full yields, fun less => ?_⟩
  have ends := last less
  rw [Nat.zero_add] at ends
  exact ⟨ends, collect_of_short yields less ends⟩

theorem yields_of_collect
    (collected : (collect call g text limit 0).result s = (.ok found, t)) :
    ∃ u, Yields call (g text) 0 s found u := by
  obtain ⟨taken, u, h⟩ := asked call g text s
  rcases Nat.lt_or_eq_of_le h.bounded with less | full
  · have ended := (h.last less).2
    rw [collected] at ended
    rcases answer : (call (g text taken.length)).result u with ⟨i | reply, v⟩ <;>
      rw [answer] at ended
    · cases ended
    · cases ended
      exact ⟨u, h.yields⟩
  · have ended := h.full full
    rw [collected] at ended
    cases ended
    exact ⟨u, h.yields⟩

theorem result_complete (call : Program σ → Act σ Reply) (text : String) (start : Int)
    (line : List Char) (s : Session σ) : (complete call text start line).result s =
      match ((originAt s.registry start line).candidates call text).result
        (s.setAttemptOver false) with
      | (.ok found, t) => (.ok found, if found.isEmpty then t.setAttemptOver true else t)
      | (.error i, t) => (.error i, t) := by
  simp only [complete, result_modify_bind]
  rw [result_bind, result_candidatesAt]
  have begun : (s.setAttemptOver false).registry = s.registry := rfl
  rw [begun]
  rcases ((originAt s.registry start line).candidates call text).result
    (s.setAttemptOver false) with ⟨_ | found, t⟩
  · rfl
  · cases found <;> rfl

theorem result_candidates_generator : ((Origin.generator e g).candidates call text).result s =
    (collect call g text limit 0).result (s.setDisplayHook e.displayHook) := (rfl)

/-- At the beginning of a line all names that begin with the text are found, and the editor is to
show them itself. -/
theorem result_complete_names (call : Program σ → Act σ Reply) (text : String) (line : List Char)
    (s : Session σ) :
    ∃ t, (complete call text 0 line).result s = (.ok (s.registry.namesFrom text), t) ∧
      t.editor = s.editor ∧ t.completion.bind (·.displayHook) = none := by
  have names : originAt s.registry 0 line = .names := if_pos rfl
  rw [result_complete, names]
  refine ⟨_, rfl, ?_, ?_⟩
  · split <;> rfl
  · split <;> cases engine : s.completion <;> simp [setAttemptOver, setDisplayHook, engine]

/-! ### Generators that are functions -/

/-- A generator that is a function of the text and the number, and notes how it is asked. -/
def noting (seen : String → Nat → σ → σ) (f : String → Nat → Option String) :
    String → Nat → Program σ :=
  fun text n => .note (seen text n) (.done (.candidate (f text n)))

variable {seen : String → Nat → σ → σ} {f : String → Nat → Option String} {depth : Nat}

theorem result_noting : ((noting seen f text n).exec (depth + 1)).result s =
    (.ok (.candidate (f text n)), { s with programs := seen text n s.programs }) := rfl

def notes (seen : String → Nat → σ → σ) (text : String) (n count : Nat) (programs : σ) : σ :=
  (List.range' n count).foldl (fun programs n => seen text n programs) programs

theorem notes_add_one (programs : σ) : notes seen text n (left + 1) programs =
    seen text (n + left) (notes seen text n left programs) := by
  simp only [notes, List.range'_concat, Nat.one_mul, List.foldl_append, List.foldl_cons,
    List.foldl_nil]

theorem function_of_yields
    (yields : Yields (Program.exec (depth + 1)) (noting seen f text) n s found t) :
    t = { s with programs := notes seen text n found.length s.programs } ∧
      ∀ i < found.length, f text (n + i) = found[i]? := by
  induction yields with
  | nil => exact ⟨rfl, fun i less => absurd less (Nat.not_lt_zero i)⟩
  | @cons n s t u c found answered _ ih =>
      rw [result_noting] at answered
      obtain ⟨first, rfl⟩ :
          f text n = some c ∧ { s with programs := seen text n s.programs } = t := by
        simpa using answered
      refine ⟨ih.1, fun i less => ?_⟩
      cases i with
      | zero => exact first
      | succ i =>
          rw [List.getElem?_cons_succ, ← ih.2 i (Nat.lt_of_succ_lt_succ less), Nat.add_assoc,
            Nat.add_comm 1 i]

/-- Some completions are all that a function has before its first number without one, or as many of
them as the limit allows. -/
structure Collected (f : Nat → Option String) (found : List String) : Prop where
  bounded : found.length ≤ limit
  each : ∀ i < found.length, f i = found[i]?
  last : found.length < limit → f found.length = none

def noted (seen : String → Nat → σ → σ) (text : String) (count : Nat) (s : Session σ) : Session σ :=
  { s with programs := notes seen text 0 count s.programs }

/-- A function that is asked up to the limit makes a log event. Its notes are the only other change.
-/
theorem result_collect_noting (depth : Nat) (seen : String → Nat → σ → σ)
    (f : String → Nat → Option String) (text : String) (s : Session σ) : ∃ found t,
    (collect (Program.exec (depth + 1)) (noting seen f) text limit 0).result s =
      (.ok found, if found.length = limit then t.log (truncation text) else t) ∧
    Collected (f text) found ∧ t = noted seen text (min limit (found.length + 1)) s := by
  obtain ⟨found, t, h⟩ := asked (Program.exec (depth + 1)) (noting seen f) text s
  obtain ⟨rfl, each⟩ := function_of_yields h.yields
  have each : ∀ i < found.length, f text i = found[i]? := fun i less => by
    rw [← each i less, Nat.zero_add]
  rcases Nat.lt_or_eq_of_le h.bounded with less | full
  · obtain ⟨ends, ended⟩ := h.last less
    have nothing : f text found.length = none := by
      cases answer : f text found.length with
      | none => rfl
      | some c => exact absurd (result_noting.trans (by rw [answer])) (ends c _)
    rw [result_noting] at ended
    refine ⟨found, _, ?_, ⟨h.bounded, each, fun _ => nothing⟩, rfl⟩
    rw [ended, if_neg (Nat.ne_of_lt less), noted, Nat.min_eq_right less, notes_add_one,
      Nat.zero_add]
  · refine ⟨found, _, ?_, ⟨h.bounded, each, fun less => absurd less (by omega)⟩, rfl⟩
    rw [h.full full, if_pos full, noted, full, Nat.min_eq_left (Nat.le_succ _)]

/-- A function is asked by each number up to the first one without a completion, or up to the limit,
and by no other. -/
theorem collect_noting (depth : Nat) (seen : String → Nat → σ → σ)
    (f : String → Nat → Option String) (text : String) (s : Session σ) : ∃ found t,
    (collect (Program.exec (depth + 1)) (noting seen f) text limit 0).result s = (.ok found, t) ∧
    Collected (f text) found ∧
    t.programs = notes seen text 0 (min limit (found.length + 1)) s.programs := by
  obtain ⟨found, t, collected, whole, asked⟩ := result_collect_noting depth seen f text s
  refine ⟨found, _, collected, whole, ?_⟩
  obtain ⟨writes, midRow, errors, logged⟩ := Session.log_frame t (truncation text)
  split
  · rw [logged, asked, noted]
  · rw [asked, noted]

/-! ### The law -/

/-- How completions are taken from the generator of a command for a text that begins at an offset of
a line. -/
structure CollectionLaw (depth : Nat) (e : Command.Entry (Program σ)) (g : String → Nat → Program σ)
    (text : String) (start : Int) (line : List Char) (s : Session σ) : Prop where
  /-- The generator is that of the command, whose hook is to show what it finds. -/
  attempt : e.generator = some g ∧ (complete (Program.exec depth) text start line).result s =
    match (collect (Program.exec depth) g text limit 0).result
      ((s.setAttemptOver false).setDisplayHook e.displayHook) with
    | (.ok found, t) => (.ok found, if found.isEmpty then t.setAttemptOver true else t)
    | (.error i, t) => (.error i, t)
  /-- Whatever program it is, it is asked by number. -/
  asked : ∃ found t, Asked (Program.exec depth) g text
    ((s.setAttemptOver false).setDisplayHook e.displayHook) found t
  /-- If it is a function, all its completions are found, up to the first number without one, or up
  to the limit; its notes tell that it was asked by no other numbers. -/
  function : ∀ seen f, g = noting seen f → depth ≠ 0 → ∃ found t,
    (complete (Program.exec depth) text start line).result s = (.ok found, t) ∧
    Collected (f text) found ∧
    t.programs = notes seen text 0 (min limit (found.length + 1)) s.programs

/-- Completions are taken from a generator in order, with one number after the other, and neither
beyond the first number without one nor beyond the limit. -/
theorem collectionLaw (depth : Nat) (text : String)
    (origin : originAt s.registry start line = .generator e g) :
    CollectionLaw depth e g text start line s where
  attempt := by
    obtain ⟨-, resolved⟩ := resolved_of_originAt origin
    obtain ⟨_, -, -, generator⟩ := Command.Registry.mem_of_resolveGenerator? resolved
    exact ⟨generator, by rw [result_complete, origin, result_candidates_generator]⟩
  asked := Completion.asked ..
  function := by
    rintro seen f rfl deep
    obtain ⟨depth, rfl⟩ := Nat.exists_eq_add_one_of_ne_zero deep
    obtain ⟨found, t, collected, whole, noted⟩ := collect_noting depth seen f text
      ((s.setAttemptOver false).setDisplayHook e.displayHook)
    rw [result_complete, origin, result_candidates_generator, collected]
    refine ⟨found, _, rfl, whole, ?_⟩
    split
    · exact noted
    · exact noted

def countingCommand (f : String → Nat → Option String) : Command.Entry (Program Nat) :=
  { name := "go", handler := fun _ => .skip, generator := some (noting (fun _ n _ => n + 1) f) }

/-- A generator without end is asked ten thousand times. One that has nothing for number two is
asked three times, although it had something for the next number. -/
theorem collected_countingCommand :
    (∃ found t, (complete (Program.exec 1) "x" 3 "go x".toList).result
        (bareShell [countingCommand fun text _ => some text] 0) = (.ok found, t) ∧
      found.length = 10000 ∧ t.programs = 10000) ∧
    ∃ found t, (complete (Program.exec 1) "x" 3 "go x".toList).result
        (bareShell [countingCommand fun text n => if n = 2 then none else some text] 0) =
          (.ok found, t) ∧
      found = ["x", "x"] ∧ t.programs = 3 := by
  have law : ∀ f, ∃ found t, (complete (Program.exec 1) "x" 3 "go x".toList).result
      (bareShell [countingCommand f] 0) = (.ok found, t) ∧ Collected (f "x") found ∧
        t.programs = notes (fun _ n _ => n + 1) "x" 0 (min limit (found.length + 1)) 0 := by
    intro f
    have origin : originAt (bareShell [countingCommand f] 0).registry 3 "go x".toList =
      .generator (countingCommand f) (noting (fun _ n _ => n + 1) f) := rfl
    exact (collectionLaw 1 "x" origin).function _ _ rfl Nat.one_ne_zero
  constructor
  · obtain ⟨found, t, ended, collected, noted⟩ := law fun text _ => some text
    have full : found.length = limit := by
      rcases Nat.lt_or_eq_of_le collected.bounded with less | full
      · cases collected.last less
      · exact full
    have more : limit = 9999 + 1 := rfl
    rw [full, Nat.min_eq_left (Nat.le_succ _), more, notes_add_one] at noted
    exact ⟨found, t, ended, full, noted⟩
  · obtain ⟨found, t, ended, collected, noted⟩ :=
      law fun text n => if n = 2 then none else some text
    have two : found.length = 2 := by
      rcases Nat.lt_or_eq_of_le collected.bounded with less | full
      · simpa using collected.last less
      · have third : 2 < found.length := by
          rw [full]
          decide
        have missing : found[2]? = none := (collected.each 2 third).symm
        rw [List.getElem?_eq_none_iff] at missing
        omega
    obtain ⟨a, b, rfl⟩ := List.length_eq_two.mp two
    cases collected.each 0 Nat.two_pos
    cases collected.each 1 Nat.one_lt_two
    exact ⟨_, t, ended, rfl, noted⟩

end Completion

end LineShell
