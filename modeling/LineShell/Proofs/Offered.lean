import LineShell.Proofs.Consumers
import LineShell.Proofs.FailedStart
import LineShell.Proofs.Remembered
import Mathlib.Data.List.Destutter
import Mathlib.Data.List.DropRight

/-!
# The history as the tail of what was offered to it

Lines come to a history one by one, or with a file that is loaded. It keeps what is left of all of
them without the empty ones and without immediate repetitions, up to its limit; what has been cut
off is missed by no later line. The files count only for what is read from them: whether a line can
be written changes neither the entries nor whether it is kept.
-/

namespace LineShell

open Act Session

variable {σ : Type} {s s₀ t : Session σ} {lines : List String} {line : String}

/-! ### What is left of some lines -/

namespace Edit.History

/-- Some lines without the empty ones and without immediate repetitions. -/
def keptOf (lines : List String) : List String :=
  (lines.filter (· ≠ "")).destutter (· ≠ ·)

theorem destutter'_concat {α : Type} [DecidableEq α] (a b : α) (l : List α) :
    (l ++ [a]).destutter' (· ≠ ·) b =
      if (l.destutter' (· ≠ ·) b).getLast? = some a then l.destutter' (· ≠ ·) b
      else l.destutter' (· ≠ ·) b ++ [a] := by
  induction l generalizing b with
  | nil => by_cases h : b = a <;> simp [h]
  | cons c l ih =>
      by_cases h : b = c
      · rw [List.cons_append, List.destutter'_cons_neg _ (by simpa using h),
          List.destutter'_cons_neg _ (by simpa using h), ih]
      · rw [List.cons_append, List.destutter'_cons_pos _ h, List.destutter'_cons_pos _ h, ih]
        obtain ⟨x, rest, some⟩ := List.exists_cons_of_ne_nil
          (List.destutter'_ne_nil (R := (· ≠ ·)) l (a := c))
        have last : (b :: l.destutter' (· ≠ ·) c).getLast? =
            (l.destutter' (· ≠ ·) c).getLast? := by rw [some, List.getLast?_cons_cons]
        rw [last]
        split <;> rfl

theorem keptOf_concat (lines : List String) (line : String) :
    keptOf (lines ++ [line]) =
      if line ≠ "" ∧ (keptOf lines).getLast? ≠ some line then keptOf lines ++ [line]
      else keptOf lines := by
  by_cases empty : line = ""
  · simp [keptOf, empty]
  · have offered : (lines ++ [line]).filter (· ≠ "") = lines.filter (· ≠ "") ++ [line] := by
      simp [empty]
    rw [keptOf, offered]
    unfold keptOf
    cases lines.filter (· ≠ "") with
    | nil => simp [empty]
    | cons first rest =>
        rw [List.cons_append, List.destutter_cons', List.destutter_cons', destutter'_concat]
        by_cases last : (rest.destutter' (· ≠ ·) first).getLast? = some line <;>
          simp [empty, last]

theorem tail_eq_rtake (limit : Int) (lines : List String) :
    tail limit lines = if 0 < limit then lines.rtake limit.toNat else lines := rfl

/-- The entries are the last ones of what is left of some lines. -/
def TailOf (h : History) (lines : List String) : Prop :=
  h.entries = tail h.limit (keptOf lines)

namespace TailOf

variable {h : History}

theorem accepts (ends : h.TailOf lines) (line : String) :
    h.accepts line = true ↔ line ≠ "" ∧ (keptOf lines).getLast? ≠ some line :=
  accepts_of_last ((congrArg _ ends).trans (getLast?_tail ..))

/-- What one more line makes of the history. -/
theorem remember_eq (ends : h.TailOf lines) (line : String) :
    h.remember line = { h with entries := tail h.limit (keptOf (lines ++ [line])) } := by
  by_cases accepted : h.accepts line = true
  · rw [remember, if_pos accepted, keptOf_concat, if_pos ((ends.accepts line).mp accepted),
      ends, tail_tail_append]
  · rw [remember, if_neg accepted, keptOf_concat, if_neg (mt (ends.accepts line).mpr accepted),
      ← ends]

theorem remember (ends : h.TailOf lines) (line : String) :
    (h.remember line).TailOf (lines ++ [line]) := by
  rw [ends.remember_eq line]
  rfl

theorem foldl_remember (ends : h.TailOf lines) (more : List String) :
    more.foldl History.remember h =
      { h with entries := tail h.limit (keptOf (lines ++ more)) } := by
  induction more generalizing h lines with
  | nil =>
      rw [List.append_nil, ← ends]
      rfl
  | cons line more ih =>
      rw [List.foldl_cons, ih (ends.remember line), ends.remember_eq line, List.append_assoc]
      rfl

end TailOf

/-- The lines that are read from a file which is loaded, none if that fails. -/
def linesAt (store : Files.Store) (path : Path) : List String :=
  match store.prepareParent path with
  | .error _ => []
  | .ok store => (stored store path).toOption.getD []

theorem TailOf.load {h loaded : History} (ends : h.TailOf lines) {store : Files.Store}
    {path : Path} (read : (h.load store path).1 = .ok loaded) :
    loaded = { h with
      entries := tail h.limit (keptOf (lines ++ linesAt store path)), file := some path } := by
  unfold History.load at read
  unfold linesAt
  cases prepared : store.prepareParent path with
  | error fault =>
      rw [prepared] at read
      cases read
  | ok store =>
      cases found : stored store path with
      | error fault =>
          simp only [prepared, found] at read
          cases read
      | ok more =>
          simp only [prepared, found, Except.ok.injEq] at read
          have named : ({ h with file := some path } : History).TailOf lines := ends
          simp only [found, Except.toOption, Option.getD_some]
          rw [← read, named.foldl_remember]

theorem linesAt_of_error {h : History} {store : Files.Store} {path : Path} {fault : Files.Fault}
    (failed : (h.load store path).1 = .error fault) : linesAt store path = [] := by
  unfold History.load at failed
  unfold linesAt
  cases prepared : store.prepareParent path with
  | error fault => rfl
  | ok store =>
      cases found : stored store path with
      | error fault =>
          simp only [found]
          rfl
      | ok more =>
          simp only [prepared, found] at failed
          cases failed

end Edit.History

/-! ### Steps of a history -/

/-- The states that a shell comes to by lines that are added to its history and by files that are
loaded into it, with the lines that have been offered so far. Between the steps anything may happen
to the system around the shell, as to its files. -/
inductive Offered (s₀ : Session σ) : List String → Session σ → Prop
  | start : Offered s₀ [] s₀
  | add {lines : List String} {s t : Session σ} {r : Except Interrupt Bool}
      (before : Offered s₀ lines s) (line : String) (added : (remember line).result s = (r, t)) :
      Offered s₀ (lines ++ [line]) t
  | load {lines : List String} {s t : Session σ} {r : Except Interrupt Unit}
      (before : Offered s₀ lines s) (path : Path) (loaded : (loadHistory path).result s = (r, t)) :
      Offered s₀ (lines ++ Edit.History.linesAt s.host.store path) t
  | outside {lines : List String} {s : Session σ} (before : Offered s₀ lines s) (host : Host) :
      Offered s₀ lines { s with host }

/-- Whatever becomes of the file, a line is remembered. -/
theorem history_of_remember {r : Except Interrupt Bool}
    (added : (remember line).result s = (r, t)) :
    t.editor.history = s.editor.history.remember line := by
  by_cases blocked : s.HistoryBlocked ∧ s.editor.history.accepts line = true
  · rw [result_remember_of_blocked blocked.1 blocked.2] at added
    cases added
    rfl
  · obtain ⟨u, kept, history, -⟩ := result_remember blocked
    rw [kept] at added
    cases added
    exact history

/-- The entries are at each step the last ones of what is left of all lines that were offered. -/
theorem tailOf_of_offered (offered : Offered s₀ lines s) (new : s₀.editor.history.entries = []) :
    s.editor.history.TailOf lines ∧ s.editor.history.limit = s₀.editor.history.limit := by
  induction offered with
  | start =>
      refine ⟨?_, rfl⟩
      simp [Edit.History.TailOf, new, Edit.History.keptOf, Edit.History.tail]
  | add _ line added ih =>
      have history := history_of_remember added
      rw [history]
      refine ⟨ih.1.remember line, ?_⟩
      rw [ih.1.remember_eq line]
      exact ih.2
  | @load lines s t r before path loaded ih =>
      cases read : (s.editor.history.load s.host.store path).1 with
      | error fault =>
          obtain ⟨writes, midRow, host, ended⟩ := result_loadHistory_of_error read
          rw [ended] at loaded
          cases loaded
          rw [Edit.History.linesAt_of_error read, List.append_nil]
          exact ih
      | ok history =>
          obtain ⟨host, ended⟩ := result_loadHistory_of_ok read
          rw [ended] at loaded
          cases loaded
          rw [ih.1.load read]
          exact ⟨rfl, ih.2⟩
  | outside _ _ ih => exact ih

/-! ### The law -/

/-- What a history of a limit is after some lines have been offered to it, and what one step more
does. -/
structure HistoryLaw (limit : Int) (lines : List String) (s : Session σ) : Prop where
  /-- The entries are the last ones of what is left of the lines, as many as the limit allows. -/
  entries : s.editor.history.entries =
    if 0 < limit then (Edit.History.keptOf lines).rtake limit.toNat
    else Edit.History.keptOf lines
  /-- A line that is added is answered with whether it is kept, which is for the lines before it to
  say. Neither this nor the new entries depend on the files, -/
  add : ∀ line, ¬ s.HistoryBlocked → ∃ t,
    (remember line).result s =
      (.ok (decide (line ≠ "" ∧ (Edit.History.keptOf lines).getLast? ≠ some line)), t) ∧
    t.editor.history = s.editor.history.remember line
  /-- but where the file has a path that cannot name one, a line that is kept is not answered. -/
  blocked : ∀ line, s.HistoryBlocked → ∃ t,
    (remember line).result s =
      (if line ≠ "" ∧ (Edit.History.keptOf lines).getLast? ≠ some line
        then .error (.failure (.file .nul)) else .ok false, t) ∧
    t.editor.history = s.editor.history.remember line
  /-- A file that is refused changes neither the entries nor where later lines go. -/
  refused : ∀ path cause p,
    (s.editor.history.load s.host.store path).1 = .error (.refused cause p) →
    ∃ t, (loadHistory path).result s = (.ok ⟨⟩, t) ∧ t.editor.history = s.editor.history

/-- A new history keeps the tail of what is left of all lines that are offered to it, whatever
becomes of the files. -/
theorem historyLaw (offered : Offered s₀ lines s) (new : s₀.editor.history.entries = []) :
    HistoryLaw s₀.editor.history.limit lines s := by
  obtain ⟨ends, limit⟩ := tailOf_of_offered offered new
  constructor
  case entries =>
    rw [← Edit.History.tail_eq_rtake, ← limit]
    exact ends
  case add =>
    intro line free
    obtain ⟨t, added, history, -⟩ := @result_remember _ s line fun h => free h.1
    refine ⟨t, ?_, history⟩
    rw [added]
    congr 2
    exact Bool.eq_iff_iff.mpr ((ends.accepts line).trans (decide_eq_true_iff).symm)
  case blocked =>
    intro line blocked
    by_cases accepted : s.editor.history.accepts line = true
    · rw [if_pos ((ends.accepts line).mp accepted)]
      exact ⟨_, result_remember_of_blocked blocked accepted, rfl⟩
    · rw [if_neg (mt (ends.accepts line).mpr accepted)]
      obtain ⟨t, added, history, -⟩ := @result_remember _ s line fun h => accepted h.2
      refine ⟨t, ?_, history⟩
      rw [added, Bool.eq_false_iff.mpr accepted]
  case refused =>
    intro path cause p failed
    obtain ⟨writes, midRow, host, ended⟩ := result_loadHistory_of_error failed
    exact ⟨_, ended, rfl⟩

/-- A shell that keeps two lines of history, in a file that turns out to be a directory. -/
def forgetfulShell : Session Unit :=
  let s := bareShell [] ()
  { s with
    host := { s.host with store := { nodes := [(["h"], .directory)] } }
    editor := { s.editor with history := { limit := 2, file := some ⟨0, ["h"]⟩ } } }

def Session.remembering (s : Session σ) : List String → Session σ
  | [] => s
  | line :: lines => Session.remembering ((remember line).result s).2 lines

theorem Offered.remembering (before : Offered s₀ lines s) (more : List String) :
    Offered s₀ (lines ++ more) (s.remembering more) := by
  induction more generalizing lines s with
  | nil => rwa [List.append_nil]
  | cons line more ih =>
      rw [List.append_cons]
      exact ih (.add before line rfl)

/-- A line that was cut off by the limit is kept when it comes again, but not twice in a row, and
the directory is not loaded. -/
theorem entries_forgetfulShell : forgetfulShell.editor.history.entries = [] ∧
    ∃ s : Session Unit, HistoryLaw 2 ["one", "", "one", "two", "three", "one"] s ∧
      s.editor.history.entries = ["three", "one"] ∧
      (∃ t, (remember "one").result s = (.ok false, t)) ∧
      ∃ t, (loadHistory ⟨0, ["h"]⟩).result s = (.ok ⟨⟩, t) ∧
        t.editor.history = s.editor.history := by
  have new : forgetfulShell.editor.history.entries = [] := rfl
  have offered := (Offered.start : Offered forgetfulShell [] _).remembering
    ["one", "", "one", "two", "three", "one"]
  have law := historyLaw offered new
  have entries := law.entries.trans (show _ = ["three", "one"] by decide +kernel)
  have free : ¬ (forgetfulShell.remembering
      ["one", "", "one", "two", "three", "one"]).HistoryBlocked := by
    rintro ⟨path, file, nul⟩
    cases file
    cases nul
  obtain ⟨t, twice, -⟩ := law.add "one" free
  exact ⟨new, _, law, entries, ⟨t, twice⟩,
    law.refused ⟨0, ["h"]⟩ .isDirectory ⟨0, ["h"]⟩ rfl⟩

end LineShell
