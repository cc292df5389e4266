import LineShell.Edit.Screen
import Mathlib.Data.List.Basic

/-!
# A line terminal

The terminal reads the output character by character. A line feed begins a new row, a carriage
return puts the cursor at the start of the row, and of the sequences that begin with `ESC [` one
erases the row from the cursor on and one moves the cursor to the left; all others, such as the
codes of colours, are ignored. Any other character is put at the cursor. Every cell remembers
whether its character was printed or belongs to the editor.
-/

namespace LineShell

open Edit

structure Cell where
  char : Char
  /-- It was printed, and is no part of a prompt or an edit line. -/
  printed : Bool
  deriving DecidableEq, Repr

inductive ReadMode where
  | text
  /-- The character behind an escape. -/
  | escape
  /-- A sequence, of which some parameters have been read. -/
  | sequence (parameters : List Char)
  deriving DecidableEq, Repr

structure Terminal where
  /-- The finished rows, latest first. -/
  above : List (List Cell) := []
  row : List Cell := []
  column : Nat := 0
  mode : ReadMode := .text
  deriving DecidableEq, Repr

namespace Terminal

def isParameter (c : Char) : Bool := c = ';' || c.isDigit

/-- The number that parameters stand for; one if there are none. -/
def count (parameters : List Char) : Nat :=
  if parameters.isEmpty then 1
  else parameters.foldl (fun n c => 10 * n + (c.toNat - '0'.toNat)) 0

def newRow (t : Terminal) : Terminal :=
  { t with above := t.row :: t.above, row := [], column := 0 }

def place (t : Terminal) (c : Cell) : Terminal :=
  { t with row := t.row.take t.column ++ c :: t.row.drop (t.column + 1), column := t.column + 1 }

def obey (t : Terminal) (parameters : List Char) (final : Char) : Terminal :=
  if final = 'K' && parameters.isEmpty then { t with row := t.row.take t.column }
  else if final = 'D' then { t with column := t.column - count parameters }
  else t

def step (t : Terminal) (c : Cell) : Terminal :=
  match t.mode with
  | .text =>
    if c.char = '\n' then t.newRow
    else if c.char = '\r' then { t with column := 0 }
    else if c.char = '\x1b' then { t with mode := .escape }
    else t.place c
  | .escape => { t with mode := if c.char = '[' then .sequence [] else .text }
  | .sequence parameters =>
    if isParameter c.char then { t with mode := .sequence (parameters ++ [c.char]) }
    else { t.obey parameters c.char with mode := .text }

def read (t : Terminal) (cells : List Cell) : Terminal := cells.foldl step t

/-- The printed characters on the screen, row by row. -/
def printed (t : Terminal) : List Char :=
  ((t.above.reverse.flatten ++ t.row).filter Cell.printed).map Cell.char

theorem read_append (t : Terminal) (cells more : List Cell) :
    t.read (cells ++ more) = (t.read cells).read more := List.foldl_append

end Terminal

/-- Characters, as what is printed or as a part of the edit line. -/
def cellsOf (printed : Bool) (s : List Char) : List Cell := s.map (⟨·, printed⟩)

namespace Edit

def Write.cells : Write → List Cell
  | output text _ => cellsOf true text.toList
  | w => cellsOf false w.text.toList

/-- The whole output, newest write first, as the terminal gets it. -/
def stream (writes : List Write) : List Cell := writes.reverse.flatMap Write.cells

/-- The terminal behind some writes. -/
def screen (writes : List Write) : Terminal := Terminal.read {} (stream writes)

@[simp] theorem stream_cons (w : Write) (ws : List Write) :
    stream (w :: ws) = stream ws ++ w.cells := by
  simp [stream]

theorem map_char_cells (w : Write) : w.cells.map Cell.char = w.text.toList := by
  cases w <;> simp [Write.cells, cellsOf, Write.text, Function.comp_def]

/-- The terminal gets exactly what is written. -/
theorem map_char_stream (ws : List Write) : (stream ws).map Cell.char = (textOf ws).toList := by
  induction ws with
  | nil => rfl
  | cons w ws ih => simp [ih, map_char_cells]

theorem screen_cons (w : Write) (ws : List Write) :
    screen (w :: ws) = (screen ws).read w.cells := by
  simp [screen, Terminal.read_append]

end Edit

/-! ### Plain text -/

/-- Text that holds no carriage returns, no escapes but the codes of colours, and line feeds only if
`breaks` allows them. -/
def isPlain (breaks : Bool) : ReadMode → List Char → Bool
  | .text, [] => true
  | .escape, [] | .sequence _, [] => false
  | .text, c :: s =>
    if c = '\x1b' then isPlain breaks .escape s
    else c ≠ '\r' && (breaks || c ≠ '\n') && isPlain breaks .text s
  | .escape, c :: s => c = '[' && isPlain breaks (.sequence []) s
  | .sequence parameters, c :: s =>
    if Terminal.isParameter c then isPlain breaks (.sequence (parameters ++ [c])) s
    else c = 'm' && isPlain breaks .text s

/-- A plain text without the codes of colours. -/
def visible : ReadMode → List Char → List Char
  | _, [] => []
  | .text, c :: s => if c = '\x1b' then visible .escape s else c :: visible .text s
  | .escape, _ :: s => visible (.sequence []) s
  | .sequence parameters, c :: s =>
    if Terminal.isParameter c then visible (.sequence (parameters ++ [c])) s else visible .text s

/-- Printed texts, prompts, lines and listings of completions are plain, and prompts and lines hold
no line feeds. -/
def Edit.Write.IsPlain : Write → Prop
  | output text _ => isPlain true .text text.toList = true
  | redraw _ prompt line _ =>
    isPlain false .text prompt.toList = true ∧ isPlain false .text line.text = true
  | listing rows => isPlain true .text (listing rows).text.toList = true
  | _ => True

instance : DecidablePred Write.IsPlain
  | .output .. => inferInstanceAs (Decidable (_ = true))
  | .redraw .. => inferInstanceAs (Decidable (_ = true ∧ _ = true))
  | .listing _ => inferInstanceAs (Decidable (_ = true))
  | .clear => inferInstanceAs (Decidable True)
  | .newRow => inferInstanceAs (Decidable True)

namespace Terminal

def put (printed : Bool) (t : Terminal) (c : Char) : Terminal :=
  if c = '\n' then t.newRow else t.place ⟨c, printed⟩

/-- The codes of colours change nothing, so that plain text is put on the screen character by
character. -/
theorem read_plain {breaks printed : Bool} {mode : ReadMode} {s : List Char}
    (h : isPlain breaks mode s = true) {t : Terminal} (hm : t.mode = mode) :
    t.read (cellsOf printed s) = (visible mode s).foldl (put printed) { t with mode := .text } := by
  induction s generalizing mode t with
  | nil =>
      cases mode with
      | text =>
          cases t
          cases hm
          rfl
      | escape => cases h
      | sequence parameters => cases h
  | cons c s ih =>
      change (t.step ⟨c, printed⟩).read (cellsOf printed s) = _
      cases mode with
      | text =>
          by_cases he : c = '\x1b'
          · subst he
            have rest : isPlain breaks .escape s = true := by simpa [isPlain] using h
            rw [ih rest (by simp [step, hm])]
            simp [visible, step, hm]
          · simp only [isPlain, if_neg he, Bool.and_eq_true] at h
            have hr : c ≠ '\r' := by simpa using h.1.1
            have hput : t.step ⟨c, printed⟩ = put printed { t with mode := .text } c := by
              cases t
              cases hm
              simp only [step, put, hr, he, if_false]
            rw [hput, ih h.2 (by unfold put; split <;> rfl)]
            simp only [visible, if_neg he, List.foldl_cons]
            congr 1
            unfold put
            split <;> rfl
      | escape =>
          simp only [isPlain, Bool.and_eq_true, decide_eq_true_eq] at h
          rw [ih h.2 (by simp [step, hm, h.1])]
          simp [visible, step, hm]
      | sequence parameters =>
          by_cases hp : isParameter c
          · simp only [isPlain, if_pos hp] at h
            rw [ih h (by simp [step, hm, hp])]
            simp [visible, step, hm, hp]
          · simp only [isPlain, if_neg hp, Bool.and_eq_true, decide_eq_true_eq] at h
            obtain ⟨rfl, h⟩ := h
            rw [ih h (by simp [step, hm, hp])]
            simp [visible, step, hm, hp, obey]

/-! ### Characters on the screen -/

@[simp] theorem mode_put (printed : Bool) (t : Terminal) (c : Char) :
    (put printed t c).mode = t.mode := by
  unfold put
  split <;> rfl

@[simp] theorem mode_foldl_put (printed : Bool) (s : List Char) (t : Terminal) :
    (s.foldl (put printed) t).mode = t.mode := by
  induction s generalizing t with
  | nil => rfl
  | cons c s ih => simp [ih]

theorem place_of_end {t : Terminal} (hc : t.column = t.row.length) (c : Cell) :
    t.place c = { t with row := t.row ++ [c], column := t.column + 1 } := by
  simp [place, hc]

/-- Characters without line feeds that are put at the end of a row make it longer. -/
theorem foldl_put_of_not_mem (printed : Bool) {s : List Char} (hs : '\n' ∉ s) (t : Terminal)
    (hc : t.column = t.row.length) :
    s.foldl (put printed) t =
      { t with row := t.row ++ cellsOf printed s, column := t.column + s.length } := by
  induction s generalizing t with
  | nil => simp [cellsOf]
  | cons c s ih =>
      simp only [List.mem_cons, not_or] at hs
      obtain ⟨hne, hs⟩ := hs
      have hp : put printed t c =
          { t with row := t.row ++ [⟨c, printed⟩], column := t.column + 1 } := by
        simp [put, Ne.symm hne, place_of_end hc]
      rw [List.foldl_cons, hp, ih hs _ (by simp [hc])]
      simp [cellsOf, Nat.add_assoc, Nat.add_comm 1]

/-- After a line feed at the end of a text a new row is begun. -/
theorem foldl_put_of_getLast? (printed : Bool) {s : List Char} (hs : s.getLast? = some '\n')
    (t : Terminal) : (s.foldl (put printed) t).row = [] ∧ (s.foldl (put printed) t).column = 0 := by
  obtain ⟨init, rfl⟩ := List.getLast?_eq_some_iff.1 hs
  simp [put, newRow]

end Terminal

/-! ### Plain texts -/

theorem isPlain_cons {breaks : Bool} {mode : ReadMode} {c : Char} {s : List Char}
    (h : isPlain breaks mode (c :: s) = true) :
    ∃ next, isPlain breaks next s = true ∧ c ≠ '\r' ∧
      (visible mode (c :: s) = visible next s ∧ c ≠ '\n' ∨
        visible mode (c :: s) = c :: visible next s ∧ (c = '\n' → breaks = true)) := by
  cases mode with
  | text =>
      by_cases he : c = '\x1b'
      · subst he
        exact ⟨.escape, by simpa [isPlain] using h, by decide, .inl ⟨by simp [visible], by decide⟩⟩
      · simp only [isPlain, if_neg he, Bool.and_eq_true] at h
        refine ⟨.text, h.2, by simpa using h.1.1, .inr ⟨by simp [visible, he], ?_⟩⟩
        rintro rfl
        simpa using h.1.2
  | escape =>
      simp only [isPlain, Bool.and_eq_true, decide_eq_true_eq] at h
      obtain ⟨rfl, h⟩ := h
      exact ⟨.sequence [], h, by decide, .inl ⟨by simp [visible], by decide⟩⟩
  | sequence parameters =>
      by_cases hp : Terminal.isParameter c
      · simp only [isPlain, if_pos hp] at h
        have hc : c ≠ '\r' ∧ c ≠ '\n' := by
          constructor <;> (rintro rfl; revert hp; decide)
        exact ⟨.sequence (parameters ++ [c]), h, hc.1, .inl ⟨by simp [visible, hp], hc.2⟩⟩
      · simp only [isPlain, if_neg hp, Bool.and_eq_true, decide_eq_true_eq] at h
        obtain ⟨rfl, h⟩ := h
        exact ⟨.text, h, by decide, .inl ⟨by simp [visible, hp], by decide⟩⟩

theorem return_not_mem_of_isPlain {breaks : Bool} {mode : ReadMode} {s : List Char}
    (h : isPlain breaks mode s = true) : '\r' ∉ s := by
  induction s generalizing mode with
  | nil => simp
  | cons c s ih =>
      obtain ⟨next, hs, hc, -⟩ := isPlain_cons h
      exact List.not_mem_cons_of_ne_of_not_mem (Ne.symm hc) (ih hs)

theorem mem_of_mem_visible {mode : ReadMode} {s : List Char} {c : Char}
    (h : c ∈ visible mode s) : c ∈ s := by
  induction s generalizing mode with
  | nil => simp [visible] at h
  | cons d s ih =>
      cases mode <;> simp only [visible] at h
      · split at h
        · exact List.mem_cons_of_mem _ (ih h)
        · exact (List.mem_cons.1 h).elim (fun he => he ▸ List.mem_cons_self)
            fun hs => List.mem_cons_of_mem _ (ih hs)
      · exact List.mem_cons_of_mem _ (ih h)
      · split at h <;> exact List.mem_cons_of_mem _ (ih h)

/-- Only where line feeds are allowed there are any to be seen. -/
theorem feed_not_mem_visible {mode : ReadMode} {s : List Char}
    (h : isPlain false mode s = true) : '\n' ∉ visible mode s := by
  induction s generalizing mode with
  | nil => simp [visible]
  | cons c s ih =>
      obtain ⟨next, hs, -, ⟨hv, -⟩ | ⟨hv, hc⟩⟩ := isPlain_cons h
      · rw [hv]
        exact ih hs
      · rw [hv]
        exact List.not_mem_cons_of_ne_of_not_mem (fun hn => nomatch hc hn.symm) (ih hs)

theorem feed_mem_visible {breaks : Bool} {mode : ReadMode} {s : List Char}
    (h : isPlain breaks mode s = true) (hn : '\n' ∈ s) : '\n' ∈ visible mode s := by
  induction s generalizing mode with
  | nil => cases hn
  | cons c s ih =>
      obtain ⟨next, hs, -, ⟨hv, hc⟩ | ⟨hv, -⟩⟩ := isPlain_cons h
      · rw [hv]
        exact ih hs ((List.mem_cons.1 hn).resolve_left (Ne.symm hc))
      · rw [hv]
        rcases List.mem_cons.1 hn with rfl | hn
        · exact List.mem_cons_self
        · exact List.mem_cons_of_mem _ (ih hs hn)

theorem getLast?_visible {breaks : Bool} {mode : ReadMode} {s : List Char}
    (h : isPlain breaks mode s = true) (hn : s.getLast? = some '\n') :
    (visible mode s).getLast? = some '\n' := by
  induction s generalizing mode with
  | nil => cases hn
  | cons c s ih =>
      obtain ⟨next, hs, -, ⟨hv, hc⟩ | ⟨hv, -⟩⟩ := isPlain_cons h
      · rw [hv]
        cases s with
        | nil => simp [hc] at hn
        | cons d s => exact ih hs (by simpa using hn)
      · rw [hv]
        cases s with
        | nil => simpa [visible] using hn
        | cons d s => simp [List.getLast?_cons, ih hs (by simpa using hn)]

/-! ### What writes do to the screen -/

theorem cellsOf_append (b : Bool) (s r : List Char) :
    cellsOf b (s ++ r) = cellsOf b s ++ cellsOf b r := by
  simp [cellsOf]

namespace Terminal

variable {t : Terminal}

theorem read_clearRow (hm : t.mode = .text) (b : Bool) :
    t.read (cellsOf b clearRow.toList) = { t with row := [], column := 0 } := by
  cases t
  cases hm
  rfl

theorem read_newline (hm : t.mode = .text) (b : Bool) : t.read (cellsOf b ['\n']) = t.newRow := by
  cases t
  cases hm
  rfl

theorem read_parameters {parameters digits : List Char} (hm : t.mode = .sequence parameters)
    (hd : ∀ c ∈ digits, isParameter c = true) (b : Bool) :
    t.read (cellsOf b digits) = { t with mode := .sequence (parameters ++ digits) } := by
  induction digits generalizing parameters t with
  | nil =>
      cases t
      cases hm
      simp [cellsOf, read]
  | cons c digits ih =>
      have hc : t.step ⟨c, b⟩ = { t with mode := .sequence (parameters ++ [c]) } := by
        simp [step, hm, hd c (List.mem_cons_self ..)]
      change (t.step ⟨c, b⟩).read (cellsOf b digits) = _
      rw [hc, ih rfl fun d hd' => hd d (List.mem_cons_of_mem _ hd')]
      simp

/-- The sequence that leads the cursor back moves it to the left. -/
theorem read_back (hm : t.mode = .text) (b : Bool) (n : Nat) :
    t.read (cellsOf b ("\x1b[" ++ toString n ++ "D").toList) =
      { t with column := t.column - count (Nat.toDigits 10 n) } := by
  have digits : ∀ c ∈ Nat.toDigits 10 n, isParameter c = true := by
    intro c hc
    simp [isParameter, Nat.isDigit_of_mem_toDigits (by decide) (by decide) hc]
  have opened : t.read (cellsOf b ['\x1b', '[']) = { t with mode := .sequence [] } := by
    cases t
    cases hm
    rfl
  have hs : ("\x1b[" ++ toString n ++ "D").toList =
      ['\x1b', '['] ++ (Nat.toDigits 10 n ++ ['D']) := by
    simp
  rw [hs, cellsOf_append, read_append, opened, cellsOf_append, read_append,
    read_parameters rfl digits]
  simp [cellsOf, read, step, isParameter, obey, hm]

/-- A prompt and a line that are drawn on an empty row are all that it holds; the cursor stands at
its end unless the point is further to the left. -/
theorem read_drawn {prompt : String} {line : Line} (hm : t.mode = .text) (hr : t.row = [])
    (hc : t.column = 0) (hp : isPlain false .text prompt.toList = true)
    (hl : isPlain false .text line.text = true) :
    ∃ column, (line.back = 0 → column =
        (visible .text prompt.toList ++ visible .text line.text).length) ∧
      t.read (cellsOf false (drawn prompt line).toList) =
        { t with row := cellsOf false (visible .text prompt.toList ++ visible .text line.text),
                 column } := by
  have placed : t.read (cellsOf false (prompt.toList ++ line.text)) =
      { t with
        row := cellsOf false (visible .text prompt.toList ++ visible .text line.text)
        column := (visible .text prompt.toList ++ visible .text line.text).length } := by
    rw [cellsOf_append, read_append, read_plain hp hm,
      foldl_put_of_not_mem false (feed_not_mem_visible hp) _ (by simp [hr, hc]),
      read_plain hl (by simp), foldl_put_of_not_mem false (feed_not_mem_visible hl) _
        (by simp [hr, hc, cellsOf])]
    simp [hr, hc, cellsOf, hm]
  by_cases hb : line.back = 0
  · have hd : (drawn prompt line).toList = prompt.toList ++ line.text := by
      simp [drawn, hb, Line.toString]
    exact ⟨_, fun _ => rfl, by rw [hd, placed]⟩
  · have hd : (drawn prompt line).toList = (prompt.toList ++ line.text) ++
        ("\x1b[" ++ toString line.back ++ "D").toList := by
      simp [drawn, hb, Line.toString]
    refine ⟨(visible .text prompt.toList ++ visible .text line.text).length -
      count (Nat.toDigits 10 line.back), fun h => absurd h hb, ?_⟩
    rw [hd, cellsOf_append, read_append, placed]
    exact read_back (t := { t with
      row := cellsOf false (visible .text prompt.toList ++ visible .text line.text)
      column := (visible .text prompt.toList ++ visible .text line.text).length })
      hm false line.back

/-- A drawing of the edit line leaves nothing else on its row. -/
theorem read_redraw {fresh : Bool} {prompt : String} {line : Line} {phase : Phase} (hm : t.mode = .text)
    (plain : (Write.redraw fresh prompt line phase).IsPlain) :
    ∃ column, (line.back = 0 → column =
        (visible .text prompt.toList ++ visible .text line.text).length) ∧
      t.read (Write.redraw fresh prompt line phase).cells =
        { above := if fresh then t.row :: t.above else t.above
          row := cellsOf false (visible .text prompt.toList ++ visible .text line.text)
          column
          mode := .text } := by
  have cleared : t.read (cellsOf false ((if fresh then "\n" else "") ++ clearRow).toList) =
      { above := if fresh then t.row :: t.above else t.above
        row := []
        column := 0
        mode := .text } := by
    cases fresh with
    | true =>
        have hs : ("\n" ++ clearRow).toList = ['\n'] ++ clearRow.toList := by simp
        simp only [if_true]
        rw [hs, cellsOf_append, read_append, read_newline hm, read_clearRow (by exact hm)]
        simp [newRow, hm]
    | false =>
        have hs : ("" ++ clearRow).toList = clearRow.toList := by simp
        simp only [Bool.false_eq_true, if_false]
        rw [hs, read_clearRow hm]
        simp [hm]
  obtain ⟨column, hc, hd⟩ := read_drawn
    (t := { above := if fresh then t.row :: t.above else t.above }) rfl rfl rfl plain.1 plain.2
  refine ⟨column, hc, ?_⟩
  have hs : (Write.redraw fresh prompt line phase).text.toList =
      ((if fresh then "\n" else "") ++ clearRow).toList ++ (drawn prompt line).toList := by
    simp [Write.text]
  change t.read (cellsOf false (Write.redraw fresh prompt line phase).text.toList) = _
  rw [hs, cellsOf_append, read_append, cleared, hd]

theorem read_output {text : String} {phase : Phase} (hm : t.mode = .text)
    (plain : (Write.output text phase).IsPlain) :
    t.read (Write.output text phase).cells = (visible .text text.toList).foldl (put true) t := by
  cases t
  cases hm
  exact read_plain plain rfl

theorem read_clear (hm : t.mode = .text) :
    t.read Write.clear.cells = { t with row := [], column := 0 } := read_clearRow hm false

theorem read_newRow (hm : t.mode = .text) : t.read Write.newRow.cells = t.newRow :=
  read_newline hm false

/-- A listing of completions leaves an empty row. -/
theorem read_listing {rows : List String} (hm : t.mode = .text)
    (plain : (Write.listing rows).IsPlain) :
    ∃ s : List Char, t.read (Write.listing rows).cells = s.foldl (put false) t ∧
      s.getLast? = some '\n' := by
  have last : (Write.listing rows).text.toList.getLast? = some '\n' := by
    simp [Write.text, List.getLast?_cons]
  refine ⟨visible .text (Write.listing rows).text.toList, ?_, getLast?_visible plain last⟩
  cases t
  cases hm
  exact read_plain plain rfl

end Terminal

/-- Plain writes leave the terminal reading text. -/
theorem mode_screen {writes : List Write} (plain : ∀ w ∈ writes, w.IsPlain) :
    (screen writes).mode = .text := by
  induction writes with
  | nil => rfl
  | cons w writes ih =>
      have hm := ih fun v hv => plain v (List.mem_cons_of_mem _ hv)
      have hw := plain w (List.mem_cons_self ..)
      rw [screen_cons]
      cases w with
      | output text phase => rw [Terminal.read_output hm hw, Terminal.mode_foldl_put, hm]
      | clear => rw [Terminal.read_clear hm, hm]
      | newRow => rw [Terminal.read_newRow hm, Terminal.newRow, hm]
      | redraw fresh prompt line phase =>
          obtain ⟨column, -, h⟩ := Terminal.read_redraw hm hw
          rw [h]
      | listing rows =>
          obtain ⟨s, h, -⟩ := Terminal.read_listing hm hw
          rw [h, Terminal.mode_foldl_put, hm]

end LineShell
