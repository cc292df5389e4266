import LineShell.Log.LineCutter
import Mathlib.Data.List.Basic
import Mathlib.Data.List.Induction

/-!
# Lines of a text that is written in parts

A writer holds back what has been written of the present line. So its lines are those of the text,
whatever the parts in which it is written, and a flush cuts the text where it stands. A line that a
sink fails at is not handed on again, except by a flush.
-/

namespace LineShell.Text

theorem pieces_eq_splitOn (sep : Char) (text : List Char) :
    pieces sep text = text.splitOn sep := by
  induction text with
  | nil => rfl
  | cons c text ih =>
      rw [pieces, ih, List.splitOn_cons_eq_if_modifyHead]
      by_cases h : c = sep
      · simp [h]
      · cases cut : text.splitOn sep with
        | nil => exact (List.splitOn_ne_nil sep text cut).elim
        | cons piece others => simp [h]

theorem splitOn_append (sep : Char) (text more : List Char) :
    (text ++ more).splitOn sep =
      (text.splitOn sep).dropLast ++ ((text.splitOn sep).getLastD [] ++ more).splitOn sep := by
  induction text with
  | nil => rfl
  | cons c text ih =>
      rw [List.cons_append, List.splitOn_cons_eq_if_modifyHead, ih,
        List.splitOn_cons_eq_if_modifyHead c text]
      by_cases h : c = sep
      · cases cut : text.splitOn sep with
        | nil => exact (List.splitOn_ne_nil sep text cut).elim
        | cons piece others => simp [h]
      · cases cut : text.splitOn sep with
        | nil => exact (List.splitOn_ne_nil sep text cut).elim
        | cons piece others =>
            cases others with
            | nil => simp [h, List.splitOn_cons_eq_if_modifyHead]
            | cons next others => simp [h]

end LineShell.Text

namespace LineShell.Log

inductive Call where
  | write (text : List Char)
  | flush

def LineCutter.call (w : LineCutter) : Call → List (List Char) × LineCutter
  | .write text => w.write text
  | .flush => w.flush

/-- The lines that calls hand on, one call after the other, and the writer behind them. -/
def LineCutter.run (w : LineCutter) : List Call → List (List Char) × LineCutter
  | [] => ([], w)
  | c :: rest => ((w.call c).1 ++ ((w.call c).2.run rest).1, ((w.call c).2.run rest).2)

/-- What calls have written: the text up to each flush, and the text behind the last one. -/
structure Written where
  flushed : List (List Char) := []
  opened : List Char := []

def Written.add (w : Written) : Call → Written
  | .write text => { w with opened := w.opened ++ text }
  | .flush => ⟨w.flushed ++ [w.opened], []⟩

def written (calls : List Call) : Written :=
  calls.foldl Written.add {}

/-- The lines of a text that are ended by a line feed, without the empty ones. -/
def endedLines (text : List Char) : List (List Char) :=
  (text.splitOn '\n').dropLast.filter (· ≠ [])

def unended (text : List Char) : List Char :=
  (text.splitOn '\n').getLastD []

def allLines (text : List Char) : List (List Char) :=
  (text.splitOn '\n').filter (· ≠ [])

/-! ### Cutting -/

theorem endedLines_append (text more : List Char) :
    endedLines (text ++ more) = endedLines text ++ endedLines (unended text ++ more) := by
  have some : (unended text ++ more).splitOn '\n' ≠ [] := by simp
  rw [endedLines, Text.splitOn_append, ← unended, List.dropLast_append_of_ne_nil some,
    List.filter_append, ← endedLines, ← endedLines]

theorem unended_append (text more : List Char) :
    unended (text ++ more) = unended (unended text ++ more) := by
  have some : (unended text ++ more).splitOn '\n' ≠ [] := by simp
  rw [unended, Text.splitOn_append, ← unended, List.getLastD_eq_getLast?,
    List.getLast?_append_of_ne_nil _ some, ← List.getLastD_eq_getLast?, ← unended]

/-- The lines of a text are those that are ended, and the rest if there is any. -/
theorem allLines_eq (text : List Char) :
    allLines text = endedLines text ++ [unended text].filter (· ≠ []) := by
  have some : text.splitOn '\n' ≠ [] := by simp
  have last : (text.splitOn '\n').getLast some = unended text := by
    rw [unended, List.getLastD_eq_getLast?, List.getLast?_eq_some_getLast some, Option.getD_some]
  rw [allLines, endedLines, ← List.filter_append, ← last, List.dropLast_concat_getLast]

/-! ### Calls -/

theorem write_eq (w : LineCutter) (text : List Char) :
    w.write text = (endedLines (w.pending ++ text), ⟨unended (w.pending ++ text)⟩) := by
  have nonempty : (fun line : List Char => !line.isEmpty) = fun line => decide (line ≠ []) := by
    funext line
    cases line <;> rfl
  rw [LineCutter.write, Text.pieces_eq_splitOn, nonempty]
  rfl

theorem flush_eq (w : LineCutter) : w.flush = ([w.pending].filter (· ≠ []), {}) := by
  rw [LineCutter.flush]
  cases w.pending <;> rfl

theorem run_append (w : LineCutter) (calls more : List Call) :
    w.run (calls ++ more) =
      ((w.run calls).1 ++ ((w.run calls).2.run more).1, ((w.run calls).2.run more).2) := by
  induction calls generalizing w with
  | nil => rfl
  | cons c calls ih => simp only [List.cons_append, LineCutter.run, ih, List.append_assoc]

theorem run_concat (calls : List Call) (c : Call) (w : LineCutter) :
    w.run (calls ++ [c]) =
      ((w.run calls).1 ++ ((w.run calls).2.call c).1, ((w.run calls).2.call c).2) := by
  simp [run_append, LineCutter.run]

theorem written_concat (calls : List Call) (c : Call) :
    written (calls ++ [c]) = (written calls).add c := by
  rw [written, List.foldl_append, ← written, List.foldl_cons, List.foldl_nil]

/-- The writer holds back what no line feed has ended. -/
theorem pending_run (calls : List Call) :
    ((LineCutter.run {} calls).2).pending = unended (written calls).opened := by
  induction calls using List.reverseRecOn with
  | nil => rfl
  | append_singleton calls c ih =>
      rw [run_concat, written_concat]
      cases c with
      | write text =>
          rw [LineCutter.call, write_eq, ih, Written.add, ← unended_append]
      | flush => rw [LineCutter.call, flush_eq, Written.add]; rfl

/-- A write hands on the lines that it ends. -/
theorem write_run (calls : List Call) (text : List Char) :
    endedLines ((written calls).opened ++ text) =
      endedLines (written calls).opened ++ ((LineCutter.run {} calls).2.write text).1 := by
  rw [write_eq, pending_run, endedLines_append]

theorem flush_run (calls : List Call) : (LineCutter.run {} calls).2.flush.1 =
    [unended (written calls).opened].filter (· ≠ []) := by
  rw [flush_eq, pending_run]

theorem lines_run (calls : List Call) : (LineCutter.run {} calls).1 =
    (written calls).flushed.flatMap allLines ++ endedLines (written calls).opened := by
  induction calls using List.reverseRecOn with
  | nil => rfl
  | append_singleton calls c ih =>
      rw [run_concat, written_concat, ih]
      cases c with
      | write text =>
          rw [LineCutter.call, Written.add, write_run, List.append_assoc]
      | flush =>
          have none : endedLines [] = [] := rfl
          rw [LineCutter.call, Written.add, flush_run, List.flatMap_append, List.flatMap_singleton,
            allLines_eq, none, List.append_nil, List.append_assoc]

theorem lineFeed_not_mem_unended (text : List Char) : '\n' ∉ unended text := by
  have some : text.splitOn '\n' ≠ [] := by simp
  have member : unended text ∈ Text.pieces '\n' text := by
    rw [Text.pieces_eq_splitOn, unended, List.getLastD_eq_getLast?,
      List.getLast?_eq_some_getLast some]
    exact List.getLast_mem some
  exact Text.not_mem_of_mem_pieces member

/-- Where no line feed is held back, a text may be written in any parts. -/
theorem run_writes {w : LineCutter} (held : '\n' ∉ w.pending) (texts : List (List Char)) :
    w.run (texts.map .write) = w.write texts.flatten := by
  induction texts generalizing w with
  | nil =>
      have alone : w.pending.splitOn '\n' = [w.pending] := List.splitOn_eq_singleton held
      rw [List.flatten_nil, write_eq, List.append_nil, endedLines, unended, alone]
      rfl
  | cons text texts ih =>
      have next : '\n' ∉ (w.write text).2.pending := by
        rw [write_eq]
        exact lineFeed_not_mem_unended _
      rw [List.map_cons, LineCutter.run, LineCutter.call, ih next, List.flatten_cons, write_eq,
        write_eq, write_eq w, ← endedLines_append, ← unended_append, List.append_assoc]

/-! ### Sinks that fail -/

section Sinks

variable {ε : Type} {sink : Sink ε} {called : List (List Char)}

/-- Of the lines that are handed on each has been or is left, but for the empty ones. -/
theorem handOn_eq {lines : List (List Char)} {failure : Option ε}
    {called' rest : List (List Char)}
    (ran : LineCutter.handOn sink called lines = (failure, called', rest)) :
    called' ++ rest.filter (· ≠ []) = called ++ lines.filter (· ≠ []) ∧ rest <:+ lines ∧
      (failure = none → rest = []) := by
  induction lines generalizing called with
  | nil =>
      cases ran
      exact ⟨rfl, List.suffix_rfl, fun _ => rfl⟩
  | cons line lines ih =>
      rw [LineCutter.handOn] at ran
      split at ran
      · rename_i empty
        obtain rfl : line = [] := List.isEmpty_iff.1 empty
        obtain ⟨same, suffix, all⟩ := ih ran
        exact ⟨by simpa using same, suffix.trans (List.suffix_cons ..), all⟩
      · rename_i some
        have kept : line ≠ [] := by simpa using some
        split at ran
        · obtain ⟨same, suffix, all⟩ := ih ran
          refine ⟨?_, suffix.trans (List.suffix_cons ..), all⟩
          rw [same, List.append_assoc, List.filter_cons_of_pos (by simpa using kept)]
          rfl
        · cases ran
          exact ⟨by simp [kept], List.suffix_cons .., fun none => nomatch none⟩

/-- Whether or not the sink fails, each line that a text ends has been handed on or is kept. -/
theorem writeTo_eq {w w' : LineCutter} {text : List Char} {failure : Option ε}
    {called' : List (List Char)} (ran : w.writeTo sink called text = (failure, called', w')) :
    called' ++ endedLines w'.pending = called ++ endedLines (w.pending ++ text) ∧
      unended w'.pending = unended (w.pending ++ text) ∧
      (failure = none → endedLines w'.pending = []) := by
  rw [LineCutter.writeTo, Text.pieces_eq_splitOn] at ran
  rcases handed : LineCutter.handOn sink called ((w.pending ++ text).splitOn '\n').dropLast with
    ⟨failed, handedOn, rest⟩
  rw [handed] at ran
  cases ran
  obtain ⟨same, suffix, all⟩ := handOn_eq handed
  -- What is kept is cut again as it was cut before.
  have solid : ∀ line ∈ rest ++ [unended (w.pending ++ text)], '\n' ∉ line := by
    intro line member
    rcases List.mem_append.1 member with left | last
    · have piece := List.dropLast_subset _ (suffix.subset left)
      rw [← Text.pieces_eq_splitOn] at piece
      exact Text.not_mem_of_mem_pieces piece
    · rw [List.mem_singleton.1 last]
      exact lineFeed_not_mem_unended _
  have cut : (['\n'].intercalate (rest ++ [unended (w.pending ++ text)])).splitOn '\n' =
      rest ++ [unended (w.pending ++ text)] :=
    List.splitOn_intercalate '\n' solid (by simp)
  have ended : endedLines (['\n'].intercalate (rest ++ [unended (w.pending ++ text)])) =
      rest.filter (· ≠ []) := by
    rw [endedLines, cut, List.dropLast_concat]
  refine ⟨?_, ?_, fun none => ?_⟩
  · rw [← unended, ended]
    exact same
  · rw [← unended, unended, cut, List.getLastD_concat]
  · rw [← unended, ended, all none]
    rfl

/-- A flush hands on what is kept, and keeps it if the sink fails. -/
theorem flushTo_eq (w : LineCutter) : w.flushTo sink called =
    ((w.flush.1.head?.bind (sink called)), called ++ w.flush.1,
      if (w.flush.1.head?.bind (sink called)).isNone then {} else w) := by
  rw [LineCutter.flushTo, LineCutter.flush]
  split
  · rename_i empty
    have nothing : w = {} := congrArg LineCutter.mk (List.isEmpty_iff.1 empty)
    simp [nothing]
  · rfl

theorem handOn_of_takes (takes : ∀ called line, sink called line = none)
    (lines : List (List Char)) :
    LineCutter.handOn sink called lines = (none, called ++ lines.filter (!·.isEmpty), []) := by
  induction lines generalizing called with
  | nil => rw [LineCutter.handOn, List.filter_nil, List.append_nil]
  | cons line lines ih =>
      rw [LineCutter.handOn]
      split
      · rename_i empty
        rw [ih, List.filter_cons_of_neg (by simp [empty])]
      · rename_i some
        rw [takes]
        simp only [ih, List.append_assoc, List.singleton_append]
        rw [List.filter_cons_of_pos (by simpa using some)]

/-- A sink that never fails is called with the lines that the writer hands on. -/
theorem writeTo_of_takes (takes : ∀ called line, sink called line = none) (w : LineCutter)
    (text : List Char) : w.writeTo sink called text =
      (none, called ++ (w.write text).1, (w.write text).2) := by
  rw [LineCutter.writeTo, handOn_of_takes takes, LineCutter.write]
  simp only [List.nil_append, List.intercalate_singleton]

theorem flushTo_of_takes (takes : ∀ called line, sink called line = none) (w : LineCutter) :
    w.flushTo sink called = (none, called ++ w.flush.1, w.flush.2) := by
  have none : w.flush.1.head?.bind (sink called) = none := by
    cases w.flush.1.head? with
    | none => rfl
    | some line => exact takes called line
  rw [flushTo_eq, none]
  rfl

end Sinks

/-- What becomes of calls on a new writer. -/
structure CuttingLaw (calls : List Call) : Prop where
  /-- The lines that are handed on are those of each part up to a flush, and of the last part those
  that are ended; none is empty. -/
  lines : (LineCutter.run {} calls).1 =
    (written calls).flushed.flatMap allLines ++ endedLines (written calls).opened
  /-- Nothing is held back but what no line feed and no flush has ended. -/
  kept : (LineCutter.run {} calls).2.pending = unended (written calls).opened
  /-- A write that follows hands on the lines that it ends, -/
  ends : ∀ text, endedLines ((written calls).opened ++ text) =
    endedLines (written calls).opened ++ ((LineCutter.run {} calls).2.write text).1
  /-- and a flush what is held back. -/
  rest : (LineCutter.run {} calls).2.flush.1 = [unended (written calls).opened].filter (· ≠ [])
  /-- A text that follows may be written in any parts. -/
  uncut : ∀ texts : List (List Char), (LineCutter.run {} calls).2.run (texts.map .write) =
    (LineCutter.run {} calls).2.write texts.flatten

/-- Every line is handed on once, by the write that ends it or the flush that follows it. -/
theorem cuttingLaw (calls : List Call) : CuttingLaw calls where
  lines := lines_run calls
  kept := pending_run calls
  ends := write_run calls
  rest := flush_run calls
  uncut := run_writes (by rw [pending_run]; exact lineFeed_not_mem_unended _)

end LineShell.Log
