import LineShell.Proofs.Editor
import LineShell.Proofs.Runs
import LineShell.Proofs.Terminal

/-!
# Printed output is kept

The editor notes whether the row holds output that did not end with a line feed. As long as it then
begins a new row before it draws, no row with printed text on it is ever emptied. A completed line
whose handling is given up can leave such a row behind as the one on which a line is edited; while
that does not happen, all printed text stays on the screen.
-/

namespace LineShell

open Act Edit Edit.Editor Session

variable {σ : Type}

/-! ### Writes that erase nothing -/

namespace Edit

/-- The last writes are output, which ends with a visible character that is no line feed. -/
def isUnfinished : List Write → Bool
  | .output text _ :: older =>
    match (visible .text text.toList).getLast? with
    | none => isUnfinished older
    | some c => c ≠ '\n'
  | _ => false

/-- No row on which output is unfinished is emptied. -/
def IsGentle : List Write → Prop
  | [] => True
  | .clear :: older => isUnfinished older = false ∧ IsGentle older
  | .redraw fresh _ _ _ :: older => (isUnfinished older = true → fresh = true) ∧ IsGentle older
  | _ :: older => IsGentle older

end Edit

namespace Terminal

/-- No character on the row was printed. -/
def RowUnprinted (t : Terminal) : Prop := ∀ c ∈ t.row, c.printed = false

/-- No printed character stands at the cursor or behind it. -/
def Ahead (t : Terminal) : Prop := ∀ c ∈ t.row.drop t.column, c.printed = false

variable {t : Terminal}

theorem RowUnprinted.ahead (h : t.RowUnprinted) : t.Ahead :=
  fun c hc => h c (List.mem_of_mem_drop hc)

theorem printed_newRow : t.newRow.printed = t.printed := by
  simp [printed, newRow]

theorem filter_printed {row : List Cell} (h : ∀ c ∈ row, c.printed = false) :
    row.filter Cell.printed = [] := by
  simpa [List.filter_eq_nil_iff] using h

/-- A row on which nothing was printed may be changed in any way that prints nothing. -/
theorem printed_of_rowUnprinted (h : t.RowUnprinted) {row : List Cell}
    (hr : ∀ c ∈ row, c.printed = false) (column : Nat) :
    { t with row, column }.printed = t.printed := by
  simp [printed, filter_printed h, filter_printed hr]

theorem printed_place (h : t.Ahead) (c : Cell) :
    (t.place c).printed = t.printed ++ (if c.printed then [c.char] else []) := by
  have rest : (t.row.drop (t.column + 1)).filter Cell.printed = [] :=
    filter_printed fun d hd => h d (List.mem_of_mem_drop (List.drop_drop ▸ hd))
  have row : t.row.filter Cell.printed = (t.row.take t.column).filter Cell.printed := by
    conv_lhs => rw [← List.take_append_drop t.column t.row]
    rw [List.filter_append, filter_printed h, List.append_nil]
  simp only [printed, place, List.filter_append, List.filter_cons, rest, row, List.map_append]
  split <;> simp

theorem ahead_place (h : t.Ahead) (c : Cell) : (t.place c).Ahead := by
  have short : (t.row.take t.column).length ≤ t.column := List.length_take_le ..
  have behind : (t.place c).row.drop (t.place c).column =
      (t.row.drop (t.column + 1)).drop (t.column - (t.row.take t.column).length) := by
    simp only [place]
    rw [List.drop_append, List.drop_eq_nil_of_le (by omega), Nat.succ_sub short,
      List.drop_succ_cons, List.nil_append]
  intro d hd
  rw [behind] at hd
  exact h d (List.mem_of_mem_drop (List.drop_drop ▸ List.mem_of_mem_drop hd))

theorem printed_put (h : t.Ahead) (b : Bool) (c : Char) :
    (put b t c).printed = t.printed ++ (if b && c ≠ '\n' then [c] else []) := by
  unfold put
  split
  · simp_all [printed_newRow]
  · simp_all [printed_place]

theorem ahead_put (h : t.Ahead) (b : Bool) (c : Char) : (put b t c).Ahead := by
  unfold put
  split
  · exact fun _ hc => (nomatch hc)
  · exact ahead_place h _

theorem printed_foldl_put (h : t.Ahead) (b : Bool) (s : List Char) :
    (s.foldl (put b) t).printed = t.printed ++ (if b then s.filter (· ≠ '\n') else []) ∧
      (s.foldl (put b) t).Ahead := by
  induction s generalizing t with
  | nil => simp [h]
  | cons c s ih =>
      obtain ⟨hp, ha⟩ := ih (ahead_put h b c)
      refine ⟨?_, ha⟩
      rw [List.foldl_cons, hp, printed_put h]
      cases b with
      | true => by_cases hc : c = '\n' <;> simp [hc]
      | false => simp

/-- The last character of a text that is put on the screen stands on the row, unless it begins a
new one. -/
theorem mem_row_foldl_put (b : Bool) {s : List Char} {c : Char} (hs : s.getLast? = some c)
    (hc : c ≠ '\n') : ⟨c, b⟩ ∈ (s.foldl (put b) t).row := by
  obtain ⟨init, rfl⟩ := List.getLast?_eq_some_iff.1 hs
  rw [List.foldl_append, List.foldl_cons, List.foldl_nil, put, if_neg hc]
  simp [place]

end Terminal

namespace Edit

/-- The printed characters of some writes in order, without line feeds and the codes of colours. -/
def printedText (writes : List Write) : List Char :=
  writes.reverse.flatMap fun
    | .output text _ => (visible .text text.toList).filter (· ≠ '\n')
    | _ => []

/-- Behind gentle writes all that was printed is on the screen, and the row holds printed characters
exactly if output is unfinished. -/
theorem screen_of_isGentle {writes : List Write} (plain : ∀ w ∈ writes, w.IsPlain)
    (gentle : IsGentle writes) :
    (screen writes).printed = printedText writes ∧ (screen writes).Ahead ∧
      (isUnfinished writes = false ↔ (screen writes).RowUnprinted) := by
  induction writes with
  | nil => exact ⟨rfl, fun _ hc => (nomatch hc), iff_of_true rfl fun _ hc => (nomatch hc)⟩
  | cons w older ih =>
      have plainOlder : ∀ v ∈ older, v.IsPlain := fun v hv => plain v (List.mem_cons_of_mem _ hv)
      have plainW := plain w (List.mem_cons_self ..)
      have hm := mode_screen plainOlder
      rw [screen_cons]
      cases w with
      | output text phase =>
          obtain ⟨hp, ha, hr⟩ := ih plainOlder gentle
          obtain ⟨hp', ha'⟩ := Terminal.printed_foldl_put ha true (visible .text text.toList)
          rw [Terminal.read_output hm plainW]
          refine ⟨by simp [hp', hp, printedText], ha', ?_⟩
          simp only [isUnfinished]
          split
          · rename_i none
            rw [List.getLast?_eq_none_iff.1 none]
            exact hr
          · rename_i c last
            by_cases hc : c = '\n'
            · subst hc
              refine iff_of_true (by simp) fun d hd => ?_
              rw [(Terminal.foldl_put_of_getLast? true last _).1] at hd
              cases hd
            · refine iff_of_false (by simp [hc]) fun hu => ?_
              exact nomatch hu _ (Terminal.mem_row_foldl_put true last hc)
      | clear =>
          obtain ⟨hp, -, hr⟩ := ih plainOlder gentle.2
          have empty : ∀ c ∈ ([] : List Cell), c.printed = false := fun _ hc => (nomatch hc)
          rw [Terminal.read_clear hm, Terminal.printed_of_rowUnprinted (hr.1 gentle.1) empty, hp]
          exact ⟨by simp [printedText], fun _ hc => (nomatch hc), iff_of_true rfl empty⟩
      | newRow =>
          obtain ⟨hp, -, -⟩ := ih plainOlder gentle
          rw [Terminal.read_newRow hm, Terminal.printed_newRow, hp]
          exact ⟨by simp [printedText], fun _ hc => (nomatch hc),
            iff_of_true rfl fun _ hc => (nomatch hc)⟩
      | redraw fresh prompt line phase =>
          obtain ⟨hp, -, hr⟩ := ih plainOlder gentle.2
          obtain ⟨column, -, hd⟩ := Terminal.read_redraw hm plainW
          have drawn : ∀ c ∈ cellsOf false (visible .text prompt.toList ++ visible .text line.text),
              c.printed = false := by
            intro c hc
            obtain ⟨_, -, rfl⟩ := List.mem_map.1 hc
            rfl
          have unprinted :
              ((screen older).read
                (Write.redraw fresh prompt line phase).cells).RowUnprinted := by
            rw [hd]
            exact drawn
          refine ⟨?_, unprinted.ahead, iff_of_true rfl unprinted⟩
          have older :
              printedText (.redraw fresh prompt line phase :: older) =
                (screen older).printed := by
            simp [hp, printedText]
          rw [hd, older, Terminal.printed, Terminal.printed, List.filter_append,
            Terminal.filter_printed drawn]
          cases fresh with
          | true => simp
          | false =>
              have finished := Bool.eq_false_iff.2 fun hu => Bool.false_ne_true (gentle.1 hu)
              simp [Terminal.filter_printed (hr.1 finished)]
      | listing rows =>
          obtain ⟨hp, ha, -⟩ := ih plainOlder gentle
          obtain ⟨s, hs, last⟩ := Terminal.read_listing hm plainW
          obtain ⟨hp', ha'⟩ := Terminal.printed_foldl_put ha false s
          rw [hs]
          refine ⟨by simp [hp', hp, printedText], ha', iff_of_true rfl fun c hc => ?_⟩
          rw [(Terminal.foldl_put_of_getLast? false last _).1] at hc
          cases hc

theorem eq_of_append_cons {p q b r : List Cell} {x y : Cell} (h : p ++ x :: q = b ++ y :: r)
    (hy : y.char = '\r') (hp : ∀ c ∈ p, c.char ≠ '\r') (hq : ∀ c ∈ q, c.char ≠ '\r') : b = p := by
  rcases List.append_eq_append_iff.1 h with ⟨a, rfl, ha⟩ | ⟨a, rfl, ha⟩
  · cases a with
    | nil => simp
    | cons z a =>
        obtain ⟨-, rfl⟩ := List.cons.inj ha
        exact absurd hy (hq y (by simp))
  · cases a with
    | nil => simp
    | cons z a =>
        obtain ⟨rfl, -⟩ := List.cons.inj ha
        exact absurd hy (hp y (by simp))

theorem char_ne_of_isPlain {breaks b : Bool} {s : List Char} (h : isPlain breaks .text s = true) :
    ∀ c ∈ cellsOf b s, c.char ≠ '\r' := by
  intro c hc
  obtain ⟨d, hd, rfl⟩ := List.mem_map.1 hc
  exact fun he => return_not_mem_of_isPlain h (he ▸ hd)

theorem char_ne_of_mem_drawn {prompt : String} {line : Line}
    (hp : isPlain false .text prompt.toList = true) (hl : isPlain false .text line.text = true) :
    ∀ c ∈ cellsOf false (drawn prompt line).toList, c.char ≠ '\r' := by
  have back : ∀ c ∈ cellsOf false ("\x1b[" ++ toString line.back ++ "D").toList, c.char ≠ '\r' := by
    intro c hc
    obtain ⟨d, hd, rfl⟩ := List.mem_map.1 hc
    rintro (rfl : d = '\r')
    have digit : '\r' ∈ Nat.toDigits 10 line.back := by simpa using hd
    exact absurd (Nat.isDigit_of_mem_toDigits (by decide) (by decide) digit) (by decide)
  intro c hc
  have hd : (drawn prompt line).toList = prompt.toList ++ line.text ++
      (if line.back = 0 then [] else ("\x1b[" ++ toString line.back ++ "D").toList) := by
    unfold drawn Line.toString
    split <;> simp
  rw [hd, cellsOf_append, cellsOf_append] at hc
  rcases List.mem_append.1 hc with hc | hc
  · rcases List.mem_append.1 hc with hc | hc
    · exact char_ne_of_isPlain hp c hc
    · exact char_ne_of_isPlain hl c hc
  · split at hc
    · cases hc
    · exact back c hc

/-- Plain writes return the cursor only to empty the row, at most a line feed being written
before. -/
theorem cells_return {w : Write} (plain : w.IsPlain) {before rest : List Cell} {c : Cell}
    (h : w.cells = before ++ c :: rest) (hc : c.char = '\r') :
    w = .clear ∧ before = [] ∨
      ∃ fresh prompt line phase, w = .redraw fresh prompt line phase ∧
        before = cellsOf false (if fresh then ['\n'] else []) := by
  have mem : c ∈ w.cells := by simp [h]
  cases w with
  | output text phase => exact absurd hc (char_ne_of_isPlain plain c mem)
  | clear => exact .inl ⟨rfl, eq_of_append_cons (p := []) h hc (by decide) (by decide)⟩
  | newRow =>
      obtain rfl := List.mem_singleton.1 mem
      exact absurd hc (by decide)
  | redraw fresh prompt line phase =>
      refine .inr ⟨fresh, prompt, line, phase, rfl, ?_⟩
      have hcells : (Write.redraw fresh prompt line phase).cells =
          cellsOf false (if fresh then ['\n'] else []) ++ ⟨'\r', false⟩ ::
            (cellsOf false ['\x1b', '[', 'K'] ++ cellsOf false (drawn prompt line).toList) := by
        cases fresh with
        | true => simp [Write.cells, Write.text, clearRow, cellsOf]
        | false => simp [Write.cells, Write.text, clearRow, cellsOf]
      refine eq_of_append_cons (hcells.symm.trans h) hc ?_ ?_
      · cases fresh <;> decide
      · intro d hd
        rcases List.mem_append.1 hd with hd | hd
        · simp only [cellsOf, List.map_cons, List.map_nil, List.mem_cons, List.not_mem_nil,
            or_false] at hd
          rcases hd with rfl | rfl | rfl <;> decide
        · exact char_ne_of_mem_drawn plain.1 plain.2 d hd
  | listing rows => exact absurd hc (char_ne_of_isPlain plain c mem)

/-- Behind gentle writes, the row holds no printed character whenever the cursor is returned. -/
theorem rowUnprinted_of_return {writes : List Write} (plain : ∀ w ∈ writes, w.IsPlain)
    (gentle : IsGentle writes) {before rest : List Cell} {c : Cell}
    (h : stream writes = before ++ c :: rest) (hc : c.char = '\r') :
    (Terminal.read {} before).RowUnprinted := by
  induction writes generalizing before rest with
  | nil => simp [stream] at h
  | cons w older ih =>
      have plainOlder : ∀ v ∈ older, v.IsPlain := fun v hv => plain v (List.mem_cons_of_mem _ hv)
      have gentleOlder : IsGentle older := by cases w <;> first | exact gentle.2 | exact gentle
      obtain ⟨-, -, finished⟩ := screen_of_isGentle plainOlder gentleOlder
      have written : ∀ a, w.cells = a ++ c :: rest →
          (Terminal.read {} (stream older ++ a)).RowUnprinted := by
        intro a ha
        rw [Terminal.read_append]
        change ((screen older).read a).RowUnprinted
        rcases cells_return (plain w (List.mem_cons_self ..)) ha hc with
          ⟨rfl, rfl⟩ | ⟨fresh, prompt, line, _, rfl, rfl⟩
        · exact finished.1 gentle.1
        · cases fresh with
          | true =>
              simp only [if_true]
              rw [Terminal.read_newline (mode_screen plainOlder)]
              intro _ hd
              cases hd
          | false =>
              exact finished.1 (Bool.eq_false_iff.2 fun hu => Bool.false_ne_true (gentle.1 hu))
      rw [stream_cons] at h
      rcases List.append_eq_append_iff.1 h with ⟨a, rfl, ha⟩ | ⟨a, ha, hrest⟩
      · exact written a ha
      · cases a with
        | nil =>
            rw [List.append_nil] at ha
            rw [← ha, ← List.append_nil (stream older)]
            exact written [] hrest.symm
        | cons d a =>
            obtain ⟨rfl, -⟩ := List.cons.inj hrest
            exact ih plainOlder gentleOlder ha

end Edit

/-! ### The editor's note of unfinished rows -/

namespace Edit.Editor

def IsPlain (e : Editor) : Prop := ∀ w ∈ e.writes, w.IsPlain

/-- The editor has erased nothing, and knows it if output is unfinished. -/
structure Keeps (e : Editor) : Prop where
  gentle : e.IsPlain → IsGentle e.writes
  noted : e.IsPlain → isUnfinished e.writes = true → e.midRow = true

/-- The editor keeps output, and no line is edited on a row with unfinished output. -/
structure KeepsApart (e : Editor) : Prop extends Keeps e where
  apart : e.IsPlain → e.active = true → isUnfinished e.writes = false

variable {e : Editor}

theorem IsPlain.older {w : Write} {older : List Write} (h : e.IsPlain) {e' : Editor}
    (hw : e.writes = w :: older) (hw' : e'.writes = older) : e'.IsPlain := fun v hv =>
  h v (hw ▸ List.mem_cons_of_mem w (hw' ▸ hv))

theorem Keeps.congr (h : e.Keeps) {e' : Editor} (hw : e'.writes = e.writes)
    (hm : e'.midRow = e.midRow) : e'.Keeps := by
  have plain : e'.IsPlain → e.IsPlain := fun hp w hm => hp w (hw ▸ hm)
  exact ⟨fun hp => hw ▸ h.gentle (plain hp), fun hp => hw ▸ hm ▸ h.noted (plain hp)⟩

theorem KeepsApart.congr (h : e.KeepsApart) {e' : Editor} (hw : e'.writes = e.writes)
    (hm : e'.midRow = e.midRow) (ha : e'.active = true → e.active = true) : e'.KeepsApart := by
  have plain : e'.IsPlain → e.IsPlain := fun hp w hm => hp w (hw ▸ hm)
  exact ⟨h.toKeeps.congr hw hm, fun hp h' => hw ▸ h.apart (plain hp) (ha h')⟩

/-- A drawing begins a new row where output is unfinished. -/
theorem Keeps.redisplay (h : e.Keeps) : e.redisplay.KeepsApart where
  gentle hp := ⟨h.noted (hp.older rfl rfl), h.gentle (hp.older rfl rfl)⟩
  noted _ hu := nomatch hu
  apart _ _ := rfl

theorem Keeps.redisplayIfInstalled (h : e.Keeps) : e.redisplayIfInstalled.KeepsApart := by
  unfold Editor.redisplayIfInstalled
  split
  · exact h.redisplay
  · rename_i hi
    exact ⟨h, fun _ ha => absurd (active_eq.1 ha).1 hi⟩

theorem Keeps.newRow (h : e.Keeps) : e.newRow.KeepsApart where
  gentle hp := h.gentle (hp.older rfl rfl)
  noted _ hu := nomatch hu
  apart _ _ := rfl

theorem Keeps.write (h : e.Keeps) (text : String) : (e.write text).Keeps := by
  by_cases ht : text = ""
  · rw [ht, write_empty]
    exact h
  · rw [write_of_ne ht]
    refine ⟨fun hp => h.gentle (hp.older rfl rfl), fun hp hu => ?_⟩
    have plain : isPlain true .text text.toList = true := hp (.output text _) (List.mem_cons_self ..)
    refine decide_eq_true fun last => ?_
    simp only [emit, isUnfinished, getLast?_visible plain last] at hu
    exact absurd hu (by decide)

/-- A row without unfinished output may be emptied. -/
theorem KeepsApart.emit_clear (h : e.KeepsApart) (ha : e.active = true) :
    (e.emit .clear).KeepsApart where
  gentle hp := ⟨h.apart (hp.older rfl rfl) ha, h.gentle (hp.older rfl rfl)⟩
  noted _ hu := nomatch hu
  apart _ _ := rfl

theorem KeepsApart.print (h : e.KeepsApart) (text : String) : (e.print text).KeepsApart := by
  cases ha : e.active with
  | true =>
      rw [print_of_active ha]
      refine Keeps.redisplay ?_
      exact ((h.emit_clear ha).write text).congr rfl rfl
  | false =>
      rw [print_of_not_active ha]
      refine ⟨h.write text, fun _ hw => ?_⟩
      rw [active_write, ha] at hw
      cases hw

theorem KeepsApart.remove (h : e.KeepsApart) : e.remove.KeepsApart :=
  ⟨h.toKeeps.congr rfl rfl, fun _ ha => nomatch ha⟩

/-- A completed line leaves a row without unfinished output. -/
theorem KeepsApart.endRow (h : e.KeepsApart) (ha : e.active = true) : e.endRow.KeepsApart := by
  unfold Editor.endRow
  split
  · exact h.emit_clear ha
  · exact h.newRow

/-- Where a line is being edited, the next text printed empties the row first. -/
theorem stream_print_of_active (ha : e.active = true) (text : String) :
    ∃ cleared rest, stream (e.print text).writes = stream e.writes ++ cleared ++ rest ∧
      cleared.map Cell.char = clearRow.toList := by
  have written : ∃ rest, stream ((e.emit .clear).write text).writes =
      stream e.writes ++ Write.cells .clear ++ rest := by
    by_cases ht : text = ""
    · rw [ht, write_empty]
      exact ⟨[], by simp [emit]⟩
    · rw [write_of_ne ht]
      exact ⟨Write.cells (.output text e.phase), by simp [emit, Write.cells]⟩
  have drawn : ∀ e' : Editor, ∃ w, (e'.resume e.line).writes = w :: e'.writes :=
    fun _ => ⟨.redraw .., rfl⟩
  obtain ⟨rest, hr⟩ := written
  obtain ⟨w, hw⟩ := drawn ((e.emit .clear).write text)
  refine ⟨Write.cells .clear, rest ++ w.cells, ?_, map_char_cells .clear⟩
  rw [print_of_active ha, hw, stream_cons, hr, List.append_assoc _ rest]

end Edit.Editor

/-! ### Programs and keys -/

/-- Programs may use all common operations, and may give up. -/
def commonRules : Rules where
  uses op := op.IsCommon
  blanks := False
  callbacksGiveUp := true

theorem keepsApart_change {rules : Rules} {s : Session σ} {f : Session σ → Session σ}
    (h : s.editor.KeepsApart) (c : Change rules s f) : (f s).editor.KeepsApart := by
  cases c with
  | print text => exact h.print text
  | ask idle called =>
      refine Keeps.redisplayIfInstalled ?_
      exact h.toKeeps.congr rfl rfl
  | answer waiting =>
      refine Keeps.redisplayIfInstalled ?_
      exact h.toKeeps.congr rfl rfl
  | retire => exact h.remove
  | prompt text =>
      simp only [Session.setPrompt]
      split
      · refine Keeps.redisplayIfInstalled ?_
        exact h.toKeeps.congr rfl rfl
      · exact h
  | interrupt attached =>
      exact ((h.toKeeps.congr rfl rfl : (s.editor.replaceLine []).Keeps).newRow).redisplay
  | terminate =>
      exact ((h.toKeeps.congr rfl rfl : (s.editor.replaceLine []).Keeps).newRow).remove
  | begin starts =>
      refine Keeps.redisplay ?_
      exact h.toKeeps.congr rfl rfl
  | install installs =>
      refine Keeps.redisplay ?_
      exact h.toKeeps.congr rfl rfl
  | _ => exact h.congr rfl rfl id

/-- No change of programs begins the handling of a completed line. -/
theorem handling_change {rules : Rules} {s : Session σ} {f : Session σ → Session σ}
    (h : s.editor.handling = false) (c : Change rules s f) : (f s).editor.handling = false := by
  cases c with
  | print text => exact (handling_print ..).trans h
  | ask idle called => exact (handling_redisplayIfInstalled _).trans h
  | answer waiting => exact (handling_redisplayIfInstalled _).trans h
  | prompt text =>
      simp only [Session.setPrompt]
      split
      · exact (handling_redisplayIfInstalled _).trans h
      · exact h
  | begin starts => rfl
  | install installs => rfl
  | _ => exact h

/-- Between keys: output is kept, and no completed line is being handled. -/
def KeepsIdle (s : Session σ) : Prop := s.editor.KeepsApart ∧ s.editor.handling = false

theorem closed_keepsIdle : Closed (σ := σ) commonRules (Invariant commonRules KeepsIdle) :=
  Closed.ofInvariant (fun _ h => h) id
    fun h c => ⟨keepsApart_change h.1 c, handling_change h.2 c⟩

theorem closed_keepsApart :
    Closed (σ := σ) commonRules (Invariant commonRules fun s => s.editor.KeepsApart) :=
  Closed.ofInvariant (fun _ h => h) id fun h c => keepsApart_change h c

theorem keepsIdle_key {rules : Rules} {s : Session σ} {f : Session σ → Session σ}
    (h : KeepsIdle s) (c : KeyChange rules s f) : KeepsIdle (f s) := by
  obtain ⟨h, hh⟩ := h
  cases c with
  | edit f =>
      refine ⟨Keeps.redisplay ?_, hh⟩
      exact h.toKeeps.congr rfl rfl
  | newer =>
      obtain ⟨line, recalled, he⟩ := s.editor.recallNewer_frame
      refine ⟨Keeps.redisplay ?_, ?_⟩
      · rw [he]
        exact h.toKeeps.congr rfl rfl
      · exact (congrArg handling he).trans hh
  | older found =>
      obtain ⟨line, draft, recalled, he, -⟩ := s.editor.recallOlder_frame
      refine ⟨Keeps.redisplay ?_, ?_⟩
      · rw [he]
        exact h.toKeeps.congr rfl rfl
      · exact (congrArg handling he).trans hh
  | astray missing =>
      obtain ⟨line, draft, recalled, he, -⟩ := s.editor.recallOlder_frame
      refine ⟨?_, (congrArg handling he).trans hh⟩
      change s.editor.recallOlder.1.KeepsApart
      rw [he]
      exact h.congr rfl rfl id
  | list rows =>
      refine ⟨Keeps.redisplay ?_, hh⟩
      exact ⟨fun hp => h.gentle (hp.older rfl rfl), fun _ hu => nomatch hu⟩
  | draw => exact ⟨h.toKeeps.redisplay, hh⟩
  | _ => exact ⟨h.congr rfl rfl id, hh⟩

theorem keys_keepsIdle : KeysPreserve (σ := σ) commonRules KeepsIdle
    (fun s => s.editor.KeepsApart) (fun _ s => s.editor.Keeps ∧ s.editor.handling = false) where
  change := keepsIdle_key
  failed := fun h => ⟨h.1.toKeeps, h.2⟩
  begin := by
    intro s h installed
    have ended := h.1.endRow (active_eq.2 ⟨installed, h.2⟩)
    exact ended.congr rfl rfl fun ha => nomatch (active_eq.1 ha).2
  leave := by
    intro s h
    refine ⟨Keeps.redisplayIfInstalled ?_, handling_redisplayIfInstalled _⟩
    exact h.toKeeps.congr rfl rfl
  givenUp := fun h _ => ⟨h.toKeeps.congr rfl rfl, rfl⟩
  endInput := by
    intro s h
    have shown := (h.1.toKeeps.congr rfl rfl :
      ({ s.editor with handling := true }.insertText "quit".toList).Keeps).redisplay
    exact shown.toKeeps.newRow.remove
  drop := by
    intro s h removed
    refine ⟨h.congr rfl rfl fun ha => ?_, rfl⟩
    exact nomatch removed.symm.trans (active_eq.1 ha).1
  broken := fun h => ⟨h.1.congr rfl rfl, h.2⟩

/-- In every run of a new shell, the row holds no printed character whenever it is emptied, and so
all that was printed is on the screen, as long as no feeding that was given up leaves a line to be
edited on a row with printed characters. Where one does, the next text printed empties that row. -/
theorem printed_screen_of_reached {depth : Nat} {s₀ s : Session σ}
    (follows : s₀.Follows commonRules) (writes : s₀.editor.writes = [])
    (handling : s₀.editor.handling = false)
    (reached : Reached commonRules depth
      (fun _ t => t.editor.active = true → (screen t.editor.writes).RowUnprinted) s₀ s)
    (plain : ∀ w ∈ s.editor.writes, w.IsPlain) :
    (∀ before cleared rest, stream s.editor.writes = before ++ cleared ++ rest →
      cleared.map Cell.char = clearRow.toList → (Terminal.read {} before).RowUnprinted) ∧
    (screen s.editor.writes).printed = printedText s.editor.writes ∧
    ∀ t : Session σ, t.editor.active = true → ¬ (screen t.editor.writes).RowUnprinted →
      ∀ text, ∃ before cleared rest,
        stream (t.printText text).editor.writes = before ++ cleared ++ rest ∧
          cleared.map Cell.char = clearRow.toList ∧ ¬ (Terminal.read {} before).RowUnprinted := by
  have new : KeepsIdle s₀ := by
    refine ⟨⟨⟨fun _ => ?_, fun _ => ?_⟩, fun _ _ => ?_⟩, handling⟩
    · rw [writes]
      trivial
    · rw [writes]
      exact fun hu => nomatch hu
    · rw [writes]
      rfl
  have kept : KeepsIdle s := (reached.invariant keys_keepsIdle closed_keepsIdle closed_keepsApart
    (fun i t hf ht => ⟨⟨hf.1, fun hp ha => (screen_of_isGentle hp (hf.1.gentle hp)).2.2.2 (ht ha)⟩,
      hf.2⟩) new follows).1
  have gentle := kept.1.gentle plain
  refine ⟨fun before cleared rest hs hc => ?_, (screen_of_isGentle plain gentle).1,
    fun t active row text => ?_⟩
  · cases cleared with
    | nil => exact nomatch hc
    | cons c cleared =>
        have returned : c.char = '\r' := (List.cons.inj hc).1
        rw [List.append_assoc] at hs
        exact rowUnprinted_of_return plain gentle hs returned
  · obtain ⟨cleared, rest, hs, hc⟩ := stream_print_of_active active text
    exact ⟨stream t.editor.writes, cleared, rest, hs, hc, row⟩

def printing : Session Unit :=
  (((Program.sequence [.start ["shell"], .print "abc" []]).exec 3).result (bareShell [] ())).2

def typing : Except Interrupt Unit × Session Unit :=
  (feed (Program.exec 3) ['d', 'e']).result printing

/-- The text that was printed is still on the screen. -/
theorem printed_screen_typing : (screen typing.2.editor.writes).printed = ['a', 'b', 'c'] := by
  have run : typing.1.isOk = true ∧ (∀ w ∈ typing.2.editor.writes, w.IsPlain) ∧
      printedText typing.2.editor.writes = ['a', 'b', 'c'] := by
    decide +kernel
  obtain ⟨ok, plain, text⟩ := run
  have follows : (bareShell [] () : Session Unit).Follows commonRules :=
    follows_bareShell (fun _ _ => trivial) trivial trivial fun _ he => (nomatch he)
  have operations : (Program.sequence [.start ["shell"], .print "abc" []] : Program Unit).Follows
      commonRules true := .sequence (by simp [commonRules, Operation.IsCommon])
  have reached : Reached commonRules 3
      (fun _ t => t.editor.active = true → (screen t.editor.writes).RowUnprinted) (bareShell [] ())
      typing.2 :=
    .fed (.ran .start operations) _ ok
  exact (printed_screen_of_reached follows rfl rfl reached plain).2.1.trans text

end LineShell
