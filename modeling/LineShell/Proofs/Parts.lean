import Mathlib.Data.List.DropRight
import LineShell.Proofs.Leaving
import LineShell.Proofs.Typing

/-!
# The two parts of the line

The editing keys act on two texts, the one before the point and the one behind it. A machine on such
pairs says what each of them does, and the editor does the same with a text and a number, whatever
encodings the keys arrive in and wherever the text that carries them is cut.
-/

namespace LineShell

open Act Edit Session

variable {σ : Type} {call : Program σ → Act σ Reply} {s t : Session σ} {k : Key} {keys : List Key}
  {text : List Char} {p q : List Char × List Char}

/-! ### The machine -/

namespace Edit

/-- What a key makes of the text before the point and the text behind it. There is nothing for the
keys that do not only edit; the control key that deletes ends the input of an empty line. -/
def Key.press? : Key → List Char × List Char → Option (List Char × List Char)
  | .literal c, (before, after) => if c = '\n' then none else some (before ++ [c], after)
  | .backspace, (before, after) => some (before.dropLast, after)
  | .delete, (before, after) => some (before, after.tail)
  | .controlD, (before, after) => if before ++ after = [] then none else some (before, after.tail)
  | .left, (before, after) => some (before.dropLast, before.getLast?.toList ++ after)
  | .right, (before, after) => some (before ++ after.head?.toList, after.tail)
  | .lineStart, (before, after) => some ([], before ++ after)
  | .lineEnd, (before, after) => some (before ++ after, [])
  | .killAfter, (before, _) => some (before, [])
  | .killBefore, (_, after) => some ([], after)
  | .killWord, (before, after) =>
    some ((before.rdropWhile Text.isBlank).rdropWhile (!Text.isBlank ·), after)
  | _, _ => none

def Key.pressAll? (keys : List Key) (p : List Char × List Char) :
    Option (List Char × List Char) :=
  keys.foldlM (fun p k => Key.press? k p) p

def Line.parts (l : Line) : List Char × List Char := (l.before, l.after)

@[simp] theorem Line.parts_ofParts (p : List Char × List Char) :
    (Line.ofParts p.1 p.2).parts = p := by
  simp [Line.parts]

theorem Line.append_parts (l : Line) : l.parts.1 ++ l.parts.2 = l.text :=
  l.before_append_after

theorem Line.eq_ofParts {l : Line} (h : l.parts = p) : l = .ofParts p.1 p.2 := by
  subst h
  exact l.ofParts_before_after.symm

/-! ### Moves -/

theorem Line.parts_moveTo (l : Line) (n : Nat) :
    (l.moveTo n).parts = (l.text.take n, l.text.drop n) := by
  simp [Line.parts]

theorem dropLast_append_last (text : List Char) :
    text.dropLast ++ text.getLast?.toList = text := by
  cases h : text.getLast? with
  | none => simp [List.getLast?_eq_none_iff.1 h]
  | some c => exact List.dropLast_append_getLast? c h

theorem Line.parts_moveLeft {l : Line} (unbroken : '\n' ∉ l.text) :
    l.moveLeft.parts = (l.before.dropLast, l.before.getLast?.toList ++ l.after) := by
  have before := l.before_moveLeft unbroken
  have after : l.moveLeft.after = l.before.getLast?.toList ++ l.after := by
    refine @List.append_cancel_left _ l.before.dropLast _ _ ?_
    calc l.before.dropLast ++ l.moveLeft.after
        = l.text := by rw [← before, Line.before_append_after, l.text_moveLeft]
      _ = l.before ++ l.after := l.before_append_after.symm
      _ = l.before.dropLast ++ (l.before.getLast?.toList ++ l.after) := by
          rw [← List.append_assoc, dropLast_append_last]
  rw [Line.parts, before, after]

theorem Line.parts_moveRight {l : Line} (unbroken : '\n' ∉ l.text) :
    l.moveRight.parts = (l.before ++ l.after.head?.toList, l.after.tail) := by
  unfold Line.moveRight
  cases h : l.after with
  | nil => simp [Line.parts, h]
  | cons c rest =>
      have text : l.text = (l.before ++ [c]) ++ rest := by
        rw [← l.before_append_after, h, List.append_cons]
      have point : (l.before ++ [c]).length = l.point + 1 := by simp
      have other : c ≠ '\n' := by
        rintro rfl
        exact unbroken (by simp [text])
      simp only [other, if_false]
      rw [Line.parts_moveTo, text, List.take_left' point, List.drop_left' point]
      rfl

theorem Line.parts_backspace (l : Line) :
    (l.deleteBefore 1).parts = (l.before.dropLast, l.after) := by
  by_cases start : l.point = 0
  · have none : l.before = [] := List.length_eq_zero_iff.1 (l.length_before.trans start)
    rw [Line.deleteBefore, if_pos start, Line.parts, none]
    rfl
  · rw [Line.deleteBefore_of_le (by omega), Line.parts, Line.before_ofParts, Line.after_ofParts,
      List.dropLast_eq_take, Line.length_before]

/-- A key makes of a line what the machine makes of its parts. -/
theorem Editor.edit?_of_press? {l : Line} {k : Key} {p : List Char × List Char}
    (unbroken : '\n' ∉ l.text) (pressed : k.press? l.parts = some p) :
    edit? l k = some (.ofParts p.1 p.2) := by
  have parts : ∀ {m : Line}, m.parts = p → some m = some (.ofParts p.1 p.2) :=
    fun h => congrArg some (Line.eq_ofParts h)
  cases k with
  | literal c =>
      rw [Key.press?, Line.parts] at pressed
      split at pressed
      · cases pressed
      · cases pressed
        refine parts ?_
        simp [Line.parts]
  | backspace =>
      cases pressed
      exact parts l.parts_backspace
  | delete =>
      cases pressed
      refine parts ?_
      simp [Line.parts]
  | controlD =>
      rw [Key.press?, Line.parts] at pressed
      split at pressed
      · cases pressed
      · cases pressed
        refine parts ?_
        simp [Line.parts]
  | left =>
      cases pressed
      exact parts (Line.parts_moveLeft unbroken)
  | right =>
      cases pressed
      exact parts (Line.parts_moveRight unbroken)
  | lineStart =>
      cases pressed
      refine parts ?_
      simp [Line.parts, Line.moveHome]
  | lineEnd =>
      cases pressed
      refine parts ?_
      simp [Line.parts, Line.moveEnd]
  | killAfter =>
      cases pressed
      exact congrArg some l.killAfter_eq
  | killBefore =>
      cases pressed
      exact congrArg some l.killBefore_eq
  | killWord =>
      cases pressed
      exact congrArg some l.killWord_eq
  | _ => cases pressed

theorem Key.not_mem_of_press? {k : Key} {p q : List Char × List Char} (unbroken : '\n' ∉ p.1 ++ p.2)
    (pressed : k.press? p = some q) : '\n' ∉ q.1 ++ q.2 := by
  obtain ⟨before, after⟩ := p
  rw [List.mem_append, not_or] at unbroken ⊢
  obtain ⟨hb, ha⟩ := unbroken
  have shorter : '\n' ∉ before.dropLast ∧ '\n' ∉ after.tail :=
    ⟨fun h => hb (before.dropLast_subset h), fun h => ha (List.mem_of_mem_tail h)⟩
  cases k with
  | literal c =>
      rw [Key.press?] at pressed
      split at pressed
      · cases pressed
      · rename_i other
        cases pressed
        exact ⟨by simp [hb, Ne.symm other], ha⟩
  | controlD =>
      rw [Key.press?] at pressed
      split at pressed
      · cases pressed
      · cases pressed
        exact ⟨hb, shorter.2⟩
  | backspace =>
      cases pressed
      exact ⟨shorter.1, ha⟩
  | delete =>
      cases pressed
      exact ⟨hb, shorter.2⟩
  | left =>
      cases pressed
      refine ⟨shorter.1, ?_⟩
      simpa [ha] using fun h => hb (List.mem_of_getLast? h)
  | right =>
      cases pressed
      refine ⟨?_, shorter.2⟩
      simpa [hb] using fun h => ha (List.mem_of_head? h)
  | lineStart | lineEnd =>
      cases pressed
      simp [hb, ha]
  | killAfter | killBefore =>
      cases pressed
      simp [hb, ha]
  | killWord =>
      cases pressed
      have kept := (List.rdropWhile_prefix (!Text.isBlank ·) _).trans
        (List.rdropWhile_prefix Text.isBlank before)
      exact ⟨fun h => hb (kept.subset h), ha⟩
  | _ => cases pressed

end Edit

/-! ### Pressing keys -/

def Session.showParts (s : Session σ) (p : List Char × List Char) : Session σ :=
  s.onEditor fun e => { e with afterReturn := false, line := .ofParts p.1 p.2 }.redisplay

def Session.press? (s : Session σ) (keys : List Key) : Option (Session σ) :=
  keys.foldlM (fun s k => (k.press? s.editor.line.parts).map s.showParts) s

theorem result_pressKey_of_press? (call : Program σ → Act σ Reply)
    (installed : s.editor.installed = true) (unbroken : '\n' ∉ s.editor.line.text)
    (pressed : k.press? s.editor.line.parts = some p) :
    (pressKey call k).result s = (.ok ⟨⟩, s.showParts p) := by
  have edits := Editor.edit?_of_press? unbroken pressed
  have other : k ≠ .carriageReturn ∧ k ≠ .lineFeed := by
    constructor
    all_goals
      rintro rfl
      cases pressed
  have nonempty : (decide (k = .controlD) && s.editor.line.text.isEmpty) = false := by
    apply Bool.eq_false_iff.mpr
    intro ends
    rw [Bool.and_eq_true, decide_eq_true_eq, List.isEmpty_iff] at ends
    obtain ⟨rfl, empty⟩ := ends
    have left : s.editor.line.parts.1 ++ s.editor.line.parts.2 = [] :=
      s.editor.line.append_parts.trans empty
    rw [Key.press?, if_pos left] at pressed
    cases pressed
  simp only [pressKey, result_get_bind, installed, other.2, other.1, nonempty, edits, decide_false,
    Bool.not_true, Bool.false_and, Bool.false_eq_true, if_false, result_modify_bind, result_modify]
  rfl

theorem Session.press?_cons (s : Session σ) (k : Key) (keys : List Key) :
    s.press? (k :: keys) =
      (k.press? s.editor.line.parts).bind fun p => (s.showParts p).press? keys := by
  rw [Session.press?, List.foldlM_cons]
  cases k.press? s.editor.line.parts <;> rfl

theorem Session.press?_append (s : Session σ) (keys more : List Key) :
    s.press? (keys ++ more) = (s.press? keys).bind (·.press? more) := by
  simp only [Session.press?, List.foldlM_append]
  rfl

theorem Session.press?_setDecoder (s : Session σ) (keys : List Key) (d : KeyDecoder) :
    (s.setDecoder d).press? keys = (s.press? keys).map (·.setDecoder d) := by
  induction keys generalizing s with
  | nil => rfl
  | cons k keys ih =>
      rw [Session.press?_cons, Session.press?_cons]
      change (k.press? s.editor.line.parts).bind _ = _
      cases k.press? s.editor.line.parts with
      | none => rfl
      | some q => exact ih (s.showParts q)

theorem Session.parts_press? (s : Session σ) (keys : List Key) :
    (s.press? keys).map (·.editor.line.parts) = Key.pressAll? keys s.editor.line.parts := by
  induction keys generalizing s with
  | nil => rfl
  | cons k keys ih =>
      rw [Session.press?_cons, Key.pressAll?, List.foldlM_cons]
      cases first : k.press? s.editor.line.parts with
      | none => rfl
      | some q =>
          have parts : (s.showParts q).editor.line.parts = q := Line.parts_ofParts q
          exact (ih (s.showParts q)).trans (by rw [parts]; rfl)

/-- A session is as another one, apart from a line that is one row and from what is drawn, and that
a carriage return came last. -/
structure Session.Edits (s t : Session σ) : Prop where
  unbroken : '\n' ∉ t.editor.line.text
  rest : ∃ line afterReturn writes midRow,
    t = s.onEditor fun e => { e with line, afterReturn, writes, midRow }

theorem Session.Edits.installed (h : s.Edits t) : t.editor.installed = s.editor.installed := by
  obtain ⟨_, _, _, _, rest⟩ := h.rest
  rw [rest]
  rfl

theorem Session.Edits.decoder (h : s.Edits t) : t.editor.decoder = s.editor.decoder := by
  obtain ⟨_, _, _, _, rest⟩ := h.rest
  rw [rest]
  rfl

theorem Session.Edits.active (h : s.Edits t) : t.editor.active = s.editor.active := by
  obtain ⟨_, _, _, _, rest⟩ := h.rest
  rw [rest]
  rfl

theorem Session.edits_of_press? (unbroken : '\n' ∉ s.editor.line.text)
    (pressed : s.press? keys = some t) : s.Edits t := by
  induction keys generalizing s with
  | nil =>
      cases pressed
      exact ⟨unbroken, _, _, _, _, rfl⟩
  | cons k keys ih =>
      rw [Session.press?_cons] at pressed
      obtain ⟨q, first, later⟩ := Option.bind_eq_some_iff.mp pressed
      have kept := Key.not_mem_of_press? (by rwa [Line.append_parts]) first
      obtain ⟨unbroken', rest⟩ := ih (s := s.showParts q) kept later
      exact ⟨unbroken', rest⟩

/-- Pressing the keys of the machine does not depend on what is being decoded, and leaves it. -/
theorem result_deliverKeys (call : Program σ → Act σ Reply)
    (installed : s.editor.installed = true) (unbroken : '\n' ∉ s.editor.line.text)
    (pressed : s.press? keys = some t) (d : KeyDecoder) :
    (keys.forM (deliverKey call)).result (s.setDecoder d) = (.ok ⟨⟩, t.setDecoder d) ∧
      (keys.forM (pressKey call)).result (s.setDecoder d) = (.ok ⟨⟩, t.setDecoder d) := by
  induction keys generalizing s with
  | nil =>
      cases pressed
      exact ⟨rfl, rfl⟩
  | cons k keys ih =>
      rw [Session.press?_cons] at pressed
      obtain ⟨q, first, later⟩ := Option.bind_eq_some_iff.mp pressed
      have unmarked : k ≠ .pasteStart := by
        rintro rfl
        cases first
      have step := result_pressKey_of_press? call (s := s.setDecoder d) installed unbroken first
      have kept := Key.not_mem_of_press? (by rwa [Line.append_parts]) first
      rw [result_forM_cons, result_forM_cons, deliverKey, if_neg unmarked, step]
      exact ih (s := s.showParts q) installed kept later

/-! ### Reading keys -/

namespace Edit

/-- The keys that a text is read as outside of pasted text, and what waits behind it. -/
def KeyDecoder.readAll (d : KeyDecoder) : List Char → List Key × KeyDecoder
  | [] => ([], d)
  | c :: text =>
    let (keys, d) := d.read c
    let (more, d) := d.readAll text
    (keys ++ more, d)

theorem KeyDecoder.readAll_append (d : KeyDecoder) (text more : List Char) :
    d.readAll (text ++ more) =
      ((d.readAll text).1 ++ ((d.readAll text).2.readAll more).1,
        ((d.readAll text).2.readAll more).2) := by
  induction text generalizing d with
  | nil => rfl
  | cons c text ih =>
      simp only [List.cons_append, KeyDecoder.readAll, ih, List.append_assoc]

def Key.editing : List Key :=
  [.backspace, .delete, .controlD, .left, .right, .lineStart, .lineEnd, .killAfter, .killBefore,
    .killWord]

/-- A text is what terminals send for keys in order: a character that is no control stands for
itself, and for another key there are the sequences of the table. -/
inductive Key.Encodes : List Key → List Char → Prop
  | nil : Encodes [] []
  | plain {c : Char} {keys : List Key} {text : List Char} (printable : isControl c = false)
      (more : Encodes keys text) : Encodes (.literal c :: keys) (c :: text)
  | listed {k : Key} {sequence : List Char} {keys : List Key} {text : List Char}
      (editing : k ∈ Key.editing) (listed : (sequence, [k]) ∈ Key.sequences)
      (more : Encodes keys text) : Encodes (k :: keys) (sequence ++ text)

/-- Whatever sequences are sent for keys, they are read as these keys, and nothing waits then. -/
theorem KeyDecoder.readAll_of_encodes {keys : List Key} {text : List Char}
    (encodes : Key.Encodes keys text) : ({} : KeyDecoder).readAll text = (keys, {}) := by
  have all : ∀ entry ∈ Key.sequences, (∃ k ∈ Key.editing, entry.2 = [k]) →
      ({} : KeyDecoder).readAll entry.1 = (entry.2, {}) := by
    decide +kernel
  induction encodes with
  | nil => rfl
  | plain printable _ ih =>
      rw [KeyDecoder.readAll, read_of_not_control printable]
      simp only [ih, List.singleton_append]
  | listed editing listed _ ih =>
      rw [KeyDecoder.readAll_append, all _ listed ⟨_, editing, rfl⟩, ih]
      rfl

end Edit

/-- A text that is read as keys of the machine does what these keys do. -/
theorem result_forM_of_readAll (call : Program σ → Act σ Reply) {d : KeyDecoder}
    (installed : s.editor.installed = true) (unbroken : '\n' ∉ s.editor.line.text)
    (outside : s.editor.decoder.paste = none) (free : s.editor.decoder.stalled = false)
    (read : s.editor.decoder.readAll text = (keys, d)) (pressed : s.press? keys = some t) :
    (text.forM (feedChar call)).result s = (.ok ⟨⟩, t.setDecoder d) := by
  induction text generalizing s t keys with
  | nil =>
      cases read
      cases pressed
      rfl
  | cons c text ih =>
      rcases first : s.editor.decoder.read c with ⟨now, next⟩
      rcases later : next.readAll text with ⟨more, last⟩
      simp only [KeyDecoder.readAll, first, later] at read
      cases read
      rw [Session.press?_append] at pressed
      obtain ⟨u, pressed, rest⟩ := Option.bind_eq_some_iff.mp pressed
      have stays : next.paste = none ∧ next.stalled = false := by
        have same : (s.editor.decoder.read c).2 = next := by rw [first]
        rw [← same]
        exact ⟨outside, free⟩
      have delivered := (result_deliverKeys call installed unbroken pressed
        { next with progress := .busy }).1
      have edits := Session.edits_of_press? unbroken pressed
      have settled : ({ next with progress := .ready } : KeyDecoder) = next := by
        rw [← KeyDecoder.stalled_eq_false.1 stays.2]
      have fed : (feedChar call c).result s = (.ok ⟨⟩, u.setDecoder next) := by
        simp only [feedChar, result_get_bind, outside, free, first, Bool.false_eq_true, if_false,
          result_modify_bind]
        rw [result_handled, delivered]
        exact congrArg (fun d => (Except.ok PUnit.unit, u.setDecoder d)) settled
      rw [result_forM_cons, fed]
      have same : (u.setDecoder next).press? more = some (t.setDecoder next) := by
        rw [Session.press?_setDecoder, rest]
        rfl
      exact ih (s := u.setDecoder next) (t := t.setDecoder next) (edits.installed.trans installed)
        edits.unbroken stays.1 stays.2 later same

/-! ### The law of the editing keys -/

/-- What keys do to a session whose machine says `p`. Nothing of it depends on the programs that
keys may run, so none is run. -/
structure Refines (s : Session σ) (keys : List Key) (p : List Char × List Char) (t : Session σ) :
    Prop where
  parts : t.editor.line.parts = p
  /-- Beside the line only the drawing changes, and that a carriage return came last. -/
  edits : s.Edits t
  active : t.editor.active = true
  pressed : ∀ call, (keys.forM (pressKey call)).result s = (.ok ⟨⟩, t)
  /-- The text that carries the keys may complete one that waits, and come in any pieces. -/
  read : s.editor.decoder.paste = none → s.editor.decoder.stalled = false →
    ∀ (pieces : List (List Char)) d, s.editor.decoder.readAll pieces.flatten = (keys, d) →
      ∀ call, (pieces.forM (feed call)).result s = (.ok ⟨⟩, t.setDecoder d)
  /-- The keys may be sent as any of their sequences. -/
  encoded : s.editor.decoder = {} →
    ∀ pieces : List (List Char), Key.Encodes keys pieces.flatten →
      ∀ call, (pieces.forM (feed call)).result s = (.ok ⟨⟩, t)

/-- The editing keys on a line that is one row. -/
structure PartsLaw (s : Session σ) : Prop where
  /-- The machine takes every editing key, but not the one that ends the input of an empty line. -/
  total : ∀ k, (∃ c, k = .literal c ∧ c ≠ '\n') ∨ k ∈ Key.editing →
    (k = .controlD → s.editor.line.text ≠ []) → ∃ p, k.press? s.editor.line.parts = some p
  refines : ∀ keys p, Key.pressAll? keys s.editor.line.parts = some p → ∃ t, Refines s keys p t
  /-- With nothing before the point the keys that go there change nothing. -/
  atStart : s.editor.line.before = [] →
    ∀ k ∈ [Key.backspace, .left, .lineStart, .killBefore, .killWord],
      ∀ call, s.lineAfter call k = s.editor.line
  /-- With nothing behind the point the keys that go there change nothing. -/
  atEnd : s.editor.line.after = [] →
    ∀ k ∈ [Key.delete, .controlD, .right, .lineEnd, .killAfter],
      (k = .controlD → s.editor.line.text ≠ []) → ∀ call, s.lineAfter call k = s.editor.line
  keepsAfter : ∀ k, (∃ c, k = .literal c ∧ c ≠ '\n') ∨
      k ∈ [Key.backspace, .killBefore, .killWord] →
    ∀ call, (s.lineAfter call k).after = s.editor.line.after
  keepsBefore : ∀ k ∈ [Key.delete, .controlD, .killAfter],
    (k = .controlD → s.editor.line.text ≠ []) →
      ∀ call, (s.lineAfter call k).before = s.editor.line.before
  keepsText : ∀ k ∈ [Key.left, .right, .lineStart, .lineEnd],
    ∀ call, (s.lineAfter call k).text = s.editor.line.text

theorem refines_of_pressAll? (active : s.editor.active = true)
    (unbroken : '\n' ∉ s.editor.line.text)
    (machine : Key.pressAll? keys s.editor.line.parts = some p) : ∃ t, Refines s keys p t := by
  have installed : s.editor.installed = true := (Editor.active_eq.mp active).1
  rw [← s.parts_press? keys] at machine
  obtain ⟨t, pressed, parts⟩ := Option.map_eq_some_iff.mp machine
  have edits := Session.edits_of_press? unbroken pressed
  have read : s.editor.decoder.paste = none → s.editor.decoder.stalled = false →
      ∀ (pieces : List (List Char)) d, s.editor.decoder.readAll pieces.flatten = (keys, d) →
        ∀ call, (pieces.forM (feed call)).result s = (.ok ⟨⟩, t.setDecoder d) := by
    intro outside free pieces d read call
    rw [← result_forM_of_readAll call installed unbroken outside free read pressed]
    apply result_forM_feed
    intro text u part run
    -- The keys that have been read so far are the first ones of all.
    obtain ⟨rest, whole⟩ := part
    rw [← whole, KeyDecoder.readAll_append] at read
    cases read
    rw [Session.press?_append] at pressed
    obtain ⟨v, first, -⟩ := Option.bind_eq_some_iff.mp pressed
    have run' := result_forM_of_readAll call installed unbroken outside free rfl first
    cases run.symm.trans run'
    exact (Session.edits_of_press? unbroken first).installed.trans installed
  refine ⟨t, parts, edits, edits.active.trans active, fun call => ?_, read, ?_⟩
  · exact (result_deliverKeys call installed unbroken pressed s.editor.decoder).2.trans
      (by rw [← edits.decoder]; rfl)
  · intro idle pieces encodes call
    have whole := KeyDecoder.readAll_of_encodes encodes
    rw [← idle] at whole
    refine (read (by rw [idle]) (by rw [idle]; rfl) pieces _ whole call).trans ?_
    rw [← edits.decoder]
    rfl

/-- Where the machine says what a key does, the line afterwards has these parts. -/
theorem lineAfter_of_press? (call : Program σ → Act σ Reply) (active : s.editor.active = true)
    (unbroken : '\n' ∉ s.editor.line.text) (pressed : k.press? s.editor.line.parts = some p) :
    s.lineAfter call k = .ofParts p.1 p.2 := by
  rw [Session.lineAfter,
    result_pressKey_of_press? call (Editor.active_eq.mp active).1 unbroken pressed]
  rfl

/-- On a line that is one row the editing keys do what the machine on pairs of texts says, whichever
sequences they are sent as and wherever these are cut. -/
theorem partsLaw (active : s.editor.active = true) (unbroken : '\n' ∉ s.editor.line.text) :
    PartsLaw s := by
  have typed {c} (other : c ≠ '\n') : (Key.literal c).press? s.editor.line.parts =
      some (s.editor.line.before ++ [c], s.editor.line.after) := if_neg other
  have deleted (nonempty : s.editor.line.text ≠ []) : Key.controlD.press? s.editor.line.parts =
      some (s.editor.line.before, s.editor.line.after.tail) :=
    if_neg fun empty => nonempty (s.editor.line.append_parts.symm.trans empty)
  have line {k p} (pressed : Key.press? k s.editor.line.parts = some p) call :
      s.lineAfter call k = .ofParts p.1 p.2 := lineAfter_of_press? call active unbroken pressed
  have stays {k} (pressed : Key.press? k s.editor.line.parts = some s.editor.line.parts) call :
      s.lineAfter call k = s.editor.line :=
    (line pressed call).trans (Line.eq_ofParts rfl).symm
  refine ⟨?total, fun _ _ => refines_of_pressAll? active unbroken, ?atStart, ?atEnd, ?keepsAfter,
    ?keepsBefore, ?keepsText⟩
  case total =>
    rintro k (⟨c, rfl, other⟩ | member) nonempty
    · exact ⟨_, typed other⟩
    · cases k with
      | controlD => exact ⟨_, deleted (nonempty rfl)⟩
      | backspace | delete | left | right | lineStart | lineEnd | killAfter | killBefore
      | killWord => exact ⟨_, rfl⟩
      | _ => simp [Key.editing] at member
  case atStart =>
    intro empty k member
    refine stays ?_
    simp only [List.mem_cons, List.not_mem_nil, or_false] at member
    rcases member with rfl | rfl | rfl | rfl | rfl <;> simp [Key.press?, Line.parts, empty]
  case atEnd =>
    intro empty k member nonempty
    refine stays ?_
    simp only [List.mem_cons, List.not_mem_nil, or_false] at member
    rcases member with rfl | rfl | rfl | rfl | rfl
    case inr.inl =>
      rw [deleted (nonempty rfl), Line.parts, empty]
      rfl
    all_goals simp [Key.press?, Line.parts, empty]
  case keepsAfter =>
    rintro k (⟨c, rfl, other⟩ | member) call
    · rw [line (typed other)]
      exact Line.after_ofParts ..
    · simp only [List.mem_cons, List.not_mem_nil, or_false] at member
      rcases member with rfl | rfl | rfl
      all_goals
        rw [line rfl]
        exact Line.after_ofParts ..
  case keepsBefore =>
    intro k member nonempty call
    simp only [List.mem_cons, List.not_mem_nil, or_false] at member
    rcases member with rfl | rfl | rfl
    case inr.inl =>
      rw [line (deleted (nonempty rfl))]
      exact Line.before_ofParts ..
    all_goals
      rw [line rfl]
      exact Line.before_ofParts ..
  case keepsText =>
    intro k member call
    rw [← s.editor.line.before_append_after]
    simp only [List.mem_cons, List.not_mem_nil, or_false] at member
    rcases member with rfl | rfl | rfl | rfl
    · rw [line rfl]
      change s.editor.line.before.dropLast ++ (s.editor.line.before.getLast?.toList ++ _) = _
      rw [← List.append_assoc, dropLast_append_last]
    · rw [line rfl]
      change (s.editor.line.before ++ s.editor.line.after.head?.toList) ++ _ = _
      rw [List.append_assoc]
      cases s.editor.line.after <;> rfl
    · rw [line rfl]
      rfl
    · rw [line rfl]
      exact List.append_nil _

/-- Two words, a move back to the second one as an escape sequence that is cut, and the first word
replaced. -/
def reworded : List Key :=
  [.literal 'a', .literal ' ', .literal 'b', .left, .killWord, .literal 'x']

theorem parts_reworded : ∃ t,
    ([['a', ' '], ['b', '\x1b'], [], ['[', 'D', '\x17', 'x']].forM (feed (Program.exec 1))).result
      (bareShell [] ()).beginRun = (.ok ⟨⟩, t) ∧ t.editor.line.parts = (['x'], ['b']) := by
  obtain ⟨t, law⟩ := (partsLaw (s := (bareShell [] ()).beginRun) rfl (by decide)).refines
    reworded (['x'], ['b']) (by decide)
  have encodes : Key.Encodes reworded
      [['a', ' '], ['b', '\x1b'], [], ['[', 'D', '\x17', 'x']].flatten := by
    have back : (['\x1b', '[', 'D'], [Key.left]) ∈ Key.sequences := by decide +kernel
    have kill : (['\x17'], [Key.killWord]) ∈ Key.sequences := by decide +kernel
    have typed : Key.Encodes [.literal 'x'] ['x'] := .plain rfl .nil
    have moved := Key.Encodes.listed (by decide) back (.listed (by decide) kill typed)
    exact .plain rfl (.plain rfl (.plain rfl moved))
  exact ⟨t, law.encoded rfl _ encodes _, law.parts⟩

end LineShell
