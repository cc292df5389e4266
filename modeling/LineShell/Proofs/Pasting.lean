import Mathlib.Data.List.Infix
import LineShell.Proofs.FirstKey
import LineShell.Proofs.Typing

/-!
# Pasted text

Between its two marks pasted text is kept as it is, so that nothing in it is decoded as a key. The
first end mark ends it: neither the beginning of a mark within the text nor a cut through a mark
makes a difference. What is pasted is put into the line as one row, and no program is run for it.
-/

namespace LineShell

open Act Edit Session

variable {σ : Type} {call : Program σ → Act σ Reply} {s t : Session σ} {c : Char}
  {text content : List Char} {d d' : KeyDecoder}

/-! ### Characters that only wait -/

namespace Edit.KeyDecoder

/-- The decoder behind a character that completes no key, or just the mark that begins a paste. -/
def wait (d : KeyDecoder) (c : Char) : Option KeyDecoder :=
  match d.paste with
  | some received =>
    match readPaste received c with
    | .inr received => some { d with paste := some received }
    | .inl _ => none
  | none =>
    if d.stalled then none
    else
      match d.read c with
      | ([], d) => some d
      | ([.pasteStart], d) => some { d with paste := some [] }
      | _ => none

theorem wait_pasteMark : List.foldlM wait {} Key.pasteMark = some { paste := some [] } := by
  decide +kernel

theorem readPaste_eq_inr {received : List Char}
    (unmarked : ¬ pasteEnd <:+ received.reverse ++ [c]) :
    readPaste received c = .inr (c :: received) := by
  have other : ¬ pasteEnd.reverse.isPrefixOf (c :: received) = true := by
    rw [List.isPrefixOf_iff_prefix]
    intro ended
    apply unmarked
    rw [← List.reverse_prefix]
    simpa using ended
  rw [readPaste]
  exact if_neg other

/-- Text without an end mark only waits. -/
theorem wait_content {received : List Char} (unmarked : ¬ pasteEnd <:+: received.reverse ++ text) :
    text.foldlM wait { paste := some received } =
      some { paste := some (text.reverse ++ received) } := by
  -- The mark may begin in what has been received before, which grows along the text.
  induction text generalizing received with
  | nil => rfl
  | cons c text ih =>
      have now : ¬ pasteEnd <:+ received.reverse ++ [c] := by
        rintro ended
        apply unmarked
        have part : received.reverse ++ [c] <+: received.reverse ++ c :: text := by
          simp
        exact ended.isInfix.trans part.isInfix
      have later : ¬ pasteEnd <:+: (c :: received).reverse ++ text := by
        simpa using unmarked
      have step : wait { paste := some received } c = some { paste := some (c :: received) } := by
        simp only [wait, readPaste_eq_inr now]
      rw [List.foldlM_cons, step]
      simpa using ih later

/-- An end mark behind a text is complete with its last character, and not before. -/
theorem not_infix_append_dropLast (unmarked : ¬ pasteEnd <:+: content) :
    ¬ pasteEnd <:+: content ++ pasteEnd.dropLast := by
  rintro ⟨left, right, whole⟩
  apply unmarked
  rcases List.append_eq_append_iff.mp whole with ⟨beyond, rfl, -⟩ | ⟨beyond, within, rest⟩
  · exact ⟨left, beyond, rfl⟩
  · -- What lies beyond the end of the text ends as the mark does, unless there is nothing.
    have ends : (content ++ beyond).getLast? = some '~' := by
      rw [← within, List.getLast?_append]
      rfl
    cases beyond using List.reverseRecOn with
    | nil =>
        rw [List.append_nil] at within
        exact ⟨left, [], by rw [List.append_nil, within]⟩
    | append_singleton beyond c =>
        rw [← List.append_assoc, List.getLast?_concat] at ends
        cases ends
        have member : '~' ∈ pasteEnd.dropLast := by
          rw [rest]
          simp
        simp [pasteEnd] at member

/-- The last character of the end mark completes the paste. -/
theorem readPaste_pasteEnd (content : List Char) :
    readPaste (pasteEnd.dropLast.reverse ++ content.reverse) '~' = .inl content := by
  have ended : pasteEnd.reverse.isPrefixOf ('~' :: (pasteEnd.dropLast.reverse ++ content.reverse)) =
      true := by
    rw [List.isPrefixOf_iff_prefix]
    exact ⟨content.reverse, rfl⟩
  simp only [readPaste, ended, if_true]
  simp [pasteEnd]

end Edit.KeyDecoder

/-- A character that only waits changes the decoder and nothing else. -/
theorem result_feedChar_of_wait (call : Program σ → Act σ Reply)
    (waits : s.editor.decoder.wait c = some d) :
    (feedChar call c).result s = (.ok ⟨⟩, s.setDecoder d) := by
  unfold KeyDecoder.wait at waits
  simp only [feedChar, result_get_bind]
  cases paste : s.editor.decoder.paste with
  | some received =>
      simp only [paste] at waits ⊢
      cases read : KeyDecoder.readPaste received c with
      | inl content =>
          rw [read] at waits
          cases waits
      | inr more =>
          rw [read] at waits
          cases waits
          rfl
  | none =>
      simp only [paste] at waits ⊢
      by_cases stalled : s.editor.decoder.stalled = true
      · rw [if_pos stalled] at waits
        cases waits
      · rw [if_neg stalled] at waits ⊢
        rcases read : s.editor.decoder.read c with ⟨keys, pending, paste', progress⟩
        have kept : paste' = none ∧ progress = .ready := by
          have same : (s.editor.decoder.read c).2 = ⟨pending, paste', progress⟩ := by rw [read]
          have ⟨_, hp, hs⟩ := KeyDecoder.mk.inj same.symm
          exact ⟨hp.trans paste, hs.trans (KeyDecoder.stalled_eq_false.1 (Bool.eq_false_iff.2 stalled))⟩
        obtain ⟨rfl, rfl⟩ := kept
        rw [read] at waits
        simp only [result_modify_bind]
        split at waits
        · rename_i same
          cases same
          cases waits
          rfl
        · rename_i same
          cases same
          cases waits
          rfl
        · cases waits

theorem result_forM_of_wait (call : Program σ → Act σ Reply)
    (waits : text.foldlM KeyDecoder.wait s.editor.decoder = some d) :
    (text.forM (feedChar call)).result s = (.ok ⟨⟩, s.setDecoder d) := by
  induction text generalizing s with
  | nil =>
      cases waits
      rfl
  | cons c text ih =>
      rw [List.foldlM_cons] at waits
      obtain ⟨next, first, rest⟩ := Option.bind_eq_some_iff.mp waits
      rw [result_forM_cons, result_feedChar_of_wait call first]
      exact ih (s := s.setDecoder next) rest

/-! ### A whole paste -/

def pasted (content : List Char) : List Char :=
  [' '].intercalate (Text.lines content)

namespace Text

theorem isLineBreak_of_mem_cutLines {current text line : List Char} {c : Char}
    (clean : ∀ c ∈ current, isLineBreak c = false) (member : line ∈ cutLines current text)
    (inside : c ∈ line) : isLineBreak c = false := by
  fun_induction cutLines current text with
  | case1 current empty => simp at member
  | case2 current some =>
      rw [List.mem_singleton] at member
      subst member
      exact clean c (List.mem_reverse.mp inside)
  | case3 current rest ih =>
      rcases List.mem_cons.mp member with rfl | member
      · exact clean c (List.mem_reverse.mp inside)
      · exact ih (by simp) member
  | case4 current d rest other breaks ih =>
      rcases List.mem_cons.mp member with rfl | member
      · exact clean c (List.mem_reverse.mp inside)
      · exact ih (by simp) member
  | case5 current d rest other unbroken ih =>
      refine ih (fun c member => ?_) member
      rcases List.mem_cons.mp member with rfl | member
      · exact Bool.eq_false_iff.mpr unbroken
      · exact clean c member

theorem mem_intercalate {sep c : Char} {lines : List (List Char)}
    (member : c ∈ [sep].intercalate lines) : c = sep ∨ ∃ line ∈ lines, c ∈ line := by
  induction lines with
  | nil => simp at member
  | cons line lines ih =>
      cases lines with
      | nil => exact .inr ⟨line, by simp, by simpa using member⟩
      | cons next lines =>
          have parts : [sep].intercalate (line :: next :: lines) =
              line ++ sep :: [sep].intercalate (next :: lines) := by
            simp [List.intercalate]
          rw [parts, List.mem_append, List.mem_cons] at member
          rcases member with first | between | later
          · exact .inr ⟨line, List.mem_cons_self .., first⟩
          · exact .inl between
          · rcases ih later with between | ⟨other, there, inside⟩
            · exact .inl between
            · exact .inr ⟨other, List.mem_cons_of_mem _ there, inside⟩

end Text

/-- What is put into the line is one row. -/
theorem isLineBreak_of_mem_pasted (member : c ∈ pasted content) : Text.isLineBreak c = false := by
  rcases Text.mem_intercalate member with rfl | ⟨line, there, inside⟩
  · decide
  · exact Text.isLineBreak_of_mem_cutLines (by simp) there inside

/-- The text that a terminal sends for a paste. -/
def pasteOf (content : List Char) : List Char :=
  Key.pasteMark ++ content ++ KeyDecoder.pasteEnd

theorem pasteOf_eq (content : List Char) : pasteOf content =
    (Key.pasteMark ++ (content ++ KeyDecoder.pasteEnd.dropLast)) ++ ['~'] := by
  have ends : KeyDecoder.pasteEnd = KeyDecoder.pasteEnd.dropLast ++ ['~'] := rfl
  conv => lhs; rw [pasteOf, ends]
  simp only [List.append_assoc]

theorem wait_pasteOf (unmarked : ¬ KeyDecoder.pasteEnd <:+: content) :
    (Key.pasteMark ++ (content ++ KeyDecoder.pasteEnd.dropLast)).foldlM KeyDecoder.wait {} =
      some { paste := some (KeyDecoder.pasteEnd.dropLast.reverse ++ content.reverse) } := by
  have apart : ¬ KeyDecoder.pasteEnd <:+:
      [].reverse ++ (content ++ KeyDecoder.pasteEnd.dropLast) :=
    KeyDecoder.not_infix_append_dropLast unmarked
  rw [List.foldlM_append, KeyDecoder.wait_pasteMark]
  refine (KeyDecoder.wait_content apart).trans ?_
  rw [List.append_nil, List.reverse_append]

/-- The last character of a paste inserts it. -/
theorem result_feedChar_pasted (call : Program σ → Act σ Reply) {received : List Char}
    (installed : s.editor.installed = true)
    (read : KeyDecoder.readPaste received c = .inl content) :
    (feedChar call c).result (s.setDecoder { paste := some received }) =
      (.ok ⟨⟩, s.onEditor fun e =>
        { e with
          decoder := {}
          afterReturn := false
          line := e.line.insert (pasted content) }.redisplay) := by
  have pressed := result_pressKey_edit call (s := s.setDecoder { paste := some received })
    (k := .pasted content) installed (by simp) (by simp) rfl
  have received' : (s.setDecoder { paste := some received }).editor.decoder.paste = some received :=
    rfl
  simp only [feedChar, result_get_bind, received', read]
  rw [result_bind, pressed]
  rfl

/-- What a paste does to a session: the pasted text is put into the line at the point, as one row,
and drawn. -/
structure PasteLaw (s : Session σ) (content : List Char) (t : Session σ) : Prop where
  /-- Beside the line only the drawing changes, and that a carriage return came last. -/
  state : t = s.onEditor fun e =>
    { e with afterReturn := false, line := e.line.insert (pasted content) }.redisplay
  /-- The point moves behind the pasted text. -/
  before : t.editor.line.before = s.editor.line.before ++ pasted content
  after : t.editor.line.after = s.editor.line.after
  /-- No character that could end a line is put into it. -/
  row : ∀ c ∈ pasted content, Text.isLineBreak c = false
  /-- The next character is decoded as the first of a key. -/
  idle : t.editor.decoder = {}
  active : t.editor.active = true

/-- A paste in one piece. -/
theorem result_forM_pasteOf (call : Program σ → Act σ Reply)
    (installed : s.editor.installed = true) (idle : s.editor.decoder = {})
    (unmarked : ¬ KeyDecoder.pasteEnd <:+: content) :
    ((pasteOf content).forM (feedChar call)).result s =
      (.ok ⟨⟩, s.onEditor fun e =>
        { e with afterReturn := false, line := e.line.insert (pasted content) }.redisplay) := by
  have waits := wait_pasteOf unmarked
  rw [← idle] at waits
  rw [pasteOf_eq, result_forM_append, result_bind, result_forM_of_wait call waits]
  simp only
  rw [result_forM_cons,
    result_feedChar_pasted call installed (KeyDecoder.readPaste_pasteEnd content)]
  simp only [onEditor, ← idle]
  rfl

/-- Keys are accepted all along a paste. -/
theorem installed_of_prefix_pasteOf (call : Program σ → Act σ Reply)
    (installed : s.editor.installed = true) (idle : s.editor.decoder = {})
    (unmarked : ¬ KeyDecoder.pasteEnd <:+: content) (part : text <+: pasteOf content)
    (run : (text.forM (feedChar call)).result s = (.ok ⟨⟩, t)) : t.editor.installed = true := by
  rw [pasteOf_eq, List.prefix_concat_iff, ← pasteOf_eq] at part
  rcases part with rfl | ⟨rest, whole⟩
  · cases (result_forM_pasteOf call installed idle unmarked).symm.trans run
    exact installed
  · have waits := wait_pasteOf unmarked
    rw [← whole, List.foldlM_append, ← idle] at waits
    obtain ⟨d, first, -⟩ := Option.bind_eq_some_iff.mp waits
    cases (result_forM_of_wait call first).symm.trans run
    exact installed

/-- A paste that is fed to an active editor in any pieces, whatever its content is, and whatever the
programs are that keys may run: none of them is run, for the outcome does not depend on them. -/
theorem pasteLaw (active : s.editor.active = true) (idle : s.editor.decoder = {})
    (unmarked : ¬ KeyDecoder.pasteEnd <:+: content) {pieces : List (List Char)}
    (whole : pieces.flatten = pasteOf content) :
    ∃ t, PasteLaw s content t ∧ ∀ call, (pieces.forM (feed call)).result s = (.ok ⟨⟩, t) := by
  have installed : s.editor.installed = true := (Editor.active_eq.mp active).1
  refine ⟨_, ⟨rfl, ?_, ?_, ?_, idle, active⟩, fun call => ?_⟩
  · exact Line.before_insert ..
  · exact Line.after_insert ..
  · exact fun c member => isLineBreak_of_mem_pasted member
  · rw [← result_forM_pasteOf call installed idle unmarked, ← whole]
    apply result_forM_feed
    intro text t part run
    rw [whole] at part
    exact installed_of_prefix_pasteOf call installed idle unmarked part run

/-- A content that looks like keys, and breaks off in an end mark. -/
def trickyContent : List Char :=
  ['q', '\r', '\t', '\x1b', '[', 'A', '\x04', '\x1b', '[', '2', '0', '1', '\n']

/-- The paste, its marks cut. -/
def trickyPieces : List (List Char) :=
  [['\x1b', '['], ['2', '0', '0', '~'] ++ trickyContent ++ ['\x1b'], [], ['[', '2', '0'],
    ['1', '~']]

/-- It becomes one row of the line, and the shell goes on. -/
theorem pasted_trickyContent : ∃ t,
    (trickyPieces.forM (feed (Program.exec 1))).result (bareShell [] ()).beginRun = (.ok ⟨⟩, t) ∧
    t.editor.line.text = ['q', ' ', '\t', '\x1b', '[', 'A', '\x04', '\x1b', '[', '2', '0', '1'] ∧
    t.editor.active = true := by
  have whole : trickyPieces.flatten = pasteOf trickyContent := rfl
  obtain ⟨t, law, run⟩ := pasteLaw (s := (bareShell [] ()).beginRun) rfl rfl (by decide) whole
  refine ⟨t, run _, ?_, law.active⟩
  rw [← Line.before_append_after, law.before, law.after]
  decide

end LineShell
