import LineShell.Proofs.Silence

/-!
# Text that is typed

Text without control characters is typed as it is, and carriage returns and line feeds end its
lines. Whether a line feed belongs to a carriage return is known by one bit only, which is carried
along the whole text, over the handling of lines and over the pieces in which the text arrives. The
lines that are handed on are those of the text when each of its line ends is read as one line feed.
-/

namespace LineShell

open Act Edit Session

variable {σ : Type} {call : Program σ → Act σ Reply} {handler : Option String → Program σ}
  {taken : σ → List String} {s t : Session σ} {c : Char} {typed text : List Char} {latch : Bool}

/-! ### Characters that are keys by themselves -/

def isControl (c : Char) : Bool :=
  c.toNat < 0x20 || (0x7F ≤ c.toNat && c.toNat ≤ 0x9F)

/-- A character that is part of a line, or one that ends it. -/
def IsTyped (c : Char) : Prop := c = '\r' ∨ c = '\n' ∨ isControl c = false

namespace Edit.KeyDecoder

theorem control_of_mem_sequences {entry : List Char × List Key} (member : entry ∈ Key.sequences)
    (begins : [c] <+: entry.1) : isControl c = true := by
  have all : ∀ entry ∈ Key.sequences, (entry.1.head?.map isControl) = some true := by
    decide +kernel
  obtain ⟨rest, whole⟩ := begins
  have head := all entry member
  rw [← whole] at head
  simpa using head

theorem ofSequence?_of_not_control (h : isControl c = false) : Key.ofSequence? [c] = none := by
  have unlisted : Key.sequences.find? (fun entry => entry.1 = [c]) = none := by
    refine List.find?_eq_none.mpr fun entry member same => ?_
    have control := control_of_mem_sequences member (c := c) (by simp_all)
    rw [h] at control
    cases control
  simp [Key.ofSequence?, Key.isPositionReport, Key.isMouseReport, unlisted]

theorem isOpen_of_not_control (h : isControl c = false) : Key.isOpen [c] = false := by
  have closed :
      Key.sequences.any (fun entry => [c].isPrefixOf entry.1 && [c] ≠ entry.1) = false := by
    refine List.any_eq_false.mpr fun entry member longer => ?_
    rw [Bool.and_eq_true, List.isPrefixOf_iff_prefix] at longer
    have control := control_of_mem_sequences member longer.1
    rw [h] at control
    cases control
  rw [Key.isOpen, closed]
  simp [Key.isReportStart]

theorem read_of_not_control (h : isControl c = false) :
    ({} : KeyDecoder).read c = ([.literal c], {}) := by
  have none := ofSequence?_of_not_control h
  have closed := isOpen_of_not_control h
  simp [KeyDecoder.read, settle, closed, none, readSome, readLongest]

theorem read_carriageReturn : ({} : KeyDecoder).read '\r' = ([.carriageReturn], {}) := by
  decide +kernel

theorem read_lineFeed : ({} : KeyDecoder).read '\n' = ([.lineFeed], {}) := by
  decide +kernel

end Edit.KeyDecoder

/-! ### Handling one key -/

/-- Where nothing waits, a character that is a key by itself is handled as that key. -/
theorem result_feedChar_of_read {k : Key} (idle : s.editor.decoder = {})
    (read : ({} : KeyDecoder).read c = ([k], {})) (unmarked : k ≠ .pasteStart)
    (pressed : (pressKey call k).result (s.setDecoder { progress := .busy }) = (.ok ⟨⟩, t)) :
    (feedChar call c).result s = (.ok ⟨⟩, t.readyKeys) := by
  have delivered : ([k].forM (deliverKey call)).result (s.setDecoder { progress := .busy }) =
      (.ok ⟨⟩, t) := by
    rw [result_forM_cons, deliverKey, if_neg unmarked, pressed]
    rfl
  simp only [feedChar, result_get_bind, idle, read]
  rw [if_neg (by decide)]
  simp only [result_modify_bind]
  rw [result_handled, delivered]

theorem result_pressKey_ending (call : Program σ → Act σ Reply) {k : Key}
    (installed : s.editor.installed = true)
    (ends : k = .carriageReturn ∨ k = .lineFeed ∧ s.editor.afterReturn = false) :
    (pressKey call k).result s =
      (acceptLine call).result (s.onEditor fun e =>
        { e with afterReturn := k = Key.carriageReturn }) := by
  rcases ends with rfl | ⟨rfl, unpaired⟩
  · simp only [pressKey, result_get_bind, installed]
    rfl
  · simp only [pressKey, result_get_bind, installed, unpaired]
    rfl

/-! ### Typing one character -/

/-- Characters are being typed into the editor: none of them waits to be decoded, and those of the
present line stand in it one behind the other. -/
structure Session.Typing (handler : Option String → Program σ) (s : Session σ) (typed : List Char)
    (latch : Bool) : Prop where
  installed : s.editor.installed = true
  idle : s.editor.decoder = {}
  line : s.editor.line = .ofText typed
  afterReturn : s.editor.afterReturn = latch
  consumer : s.consumer = .program handler

/-- What is being typed into one editor is being typed into another one. -/
structure Edit.Editor.TypedAs (e e' : Editor) : Prop where
  line : e'.line = e.line
  decoder : e'.decoder = e.decoder
  installed : e'.installed = e.installed
  afterReturn : e'.afterReturn = e.afterReturn

/-- A program takes completed lines down, and leaves alone what is being typed. -/
def TakesLines (call : Program σ → Act σ Reply) (handler : Option String → Program σ)
    (taken : σ → List String) : Prop :=
  ∀ line s, ∃ reply t, (call (handler (some line))).result s = (.ok reply, t) ∧
    s.editor.TypedAs t.editor ∧ t.consumer = s.consumer ∧
    taken t.programs = taken s.programs ++ [line]

/-- A character that is no control goes to the end of the line. -/
theorem Session.Typing.literal (h : s.Typing handler typed latch)
    (call : Program σ → Act σ Reply) (plain : isControl c = false) :
    ∃ t, (feedChar call c).result s = (.ok ⟨⟩, t) ∧ t.Typing handler (typed ++ [c]) false ∧
      t.programs = s.programs := by
  have edits : Editor.edit? s.editor.line (.literal c) = some (.ofText (typed ++ [c])) := by
    rw [h.line]
    refine congrArg some (Line.ext_parts ?_ ?_)
    · simp [Line.ofText]
    · simp [Line.ofText]
  have pressed := result_pressKey_edit call (s := s.setDecoder { progress := .busy })
    h.installed (by simp) (by simp) edits
  exact ⟨_, result_feedChar_of_read h.idle (KeyDecoder.read_of_not_control plain) (by simp) pressed,
    ⟨h.installed, rfl, rfl, rfl, h.consumer⟩, rfl⟩

/-- A line feed that belongs to a carriage return does nothing. -/
theorem Session.Typing.lineFeed (h : s.Typing handler typed true)
    (call : Program σ → Act σ Reply) :
    ∃ t, (feedChar call '\n').result s = (.ok ⟨⟩, t) ∧ t.Typing handler typed false ∧
      t.programs = s.programs := by
  have installed : (s.setDecoder { progress := .busy }).editor.installed = true := h.installed
  have latched : (s.setDecoder { progress := .busy }).editor.afterReturn = true := h.afterReturn
  have pressed : (pressKey call .lineFeed).result (s.setDecoder { progress := .busy }) =
      (.ok ⟨⟩, (s.setDecoder { progress := .busy }).onEditor
        fun e => { e with afterReturn := false }) := by
    simp only [pressKey, result_get_bind, installed, latched]
    rfl
  exact ⟨_, result_feedChar_of_read h.idle KeyDecoder.read_lineFeed (by simp) pressed,
    ⟨h.installed, rfl, h.line, rfl, h.consumer⟩, rfl⟩

theorem typedAs_beginLine (s : Session σ) :
    ({ s.editor with line := {} } : Editor).TypedAs s.beginLine.editor := by
  have row : s.editor.endRow.decoder = s.editor.decoder ∧
      s.editor.endRow.installed = s.editor.installed ∧
      s.editor.endRow.afterReturn = s.editor.afterReturn := by
    unfold Editor.endRow
    split <;> exact ⟨rfl, rfl, rfl⟩
  exact ⟨rfl, row.1, row.2.1, row.2.2⟩

/-- A completed line is taken down, and the next one is empty. -/
theorem taken_of_acceptLine (takes : TakesLines call handler taken)
    (consumer : s.consumer = .program handler) (installed : s.editor.installed = true) :
    ∃ t, (acceptLine call).result s = (.ok ⟨⟩, t) ∧
      ({ s.editor with line := {} } : Editor).TypedAs t.editor ∧ t.consumer = s.consumer ∧
      taken t.programs = taken s.programs ++ [s.editor.line.toString] := by
  have begun := typedAs_beginLine s
  obtain ⟨reply, u, run, same, kept, more⟩ := takes s.editor.line.toString s.beginLine
  have handed : s.beginLine.consumer = .program handler := consumer
  have consumed : (consume call (some s.editor.line.toString)).result s.beginLine =
      (.ok ⟨⟩, u) := by
    simp only [consume, result_get_bind, handed]
    rw [result_bind, run]
    rfl
  have there : u.editor.installed = true := same.installed.trans (begun.installed.trans installed)
  refine ⟨u.leaveLine.onEditor (·.redisplay), ?_, ?_, kept, more⟩
  · have redrawn : u.leaveLine.editor.redisplayIfInstalled = u.leaveLine.editor.redisplay :=
      if_pos there
    rw [result_acceptLine, consumed]
    simp only [onEditor, redrawn]
  · exact ⟨same.line.trans begun.line, same.decoder.trans begun.decoder,
      same.installed.trans begun.installed, same.afterReturn.trans begun.afterReturn⟩

/-- A carriage return, and a line feed that belongs to none, completes the line. -/
theorem Session.Typing.complete (h : s.Typing handler typed latch)
    (takes : TakesLines call handler taken) (ends : c = '\r' ∨ c = '\n' ∧ latch = false) :
    ∃ t, (feedChar call c).result s = (.ok ⟨⟩, t) ∧ t.Typing handler [] (c = '\r') ∧
      taken t.programs = taken s.programs ++ [String.ofList typed] := by
  obtain ⟨k, read, unmarked, same, key⟩ : ∃ k, ({} : KeyDecoder).read c = ([k], {}) ∧
      k ≠ .pasteStart ∧ (k = .carriageReturn ↔ c = '\r') ∧
      (k = .carriageReturn ∨ k = .lineFeed ∧ s.editor.afterReturn = false) := by
    rcases ends with rfl | ⟨rfl, rfl⟩
    · exact ⟨_, KeyDecoder.read_carriageReturn, by simp, by simp, .inl rfl⟩
    · exact ⟨_, KeyDecoder.read_lineFeed, by simp, by simp, .inr ⟨rfl, h.afterReturn⟩⟩
  have pressed := result_pressKey_ending call (s := s.setDecoder { progress := .busy })
    h.installed key
  obtain ⟨u, accepted, left, kept, more⟩ := taken_of_acceptLine
    (s := (s.setDecoder { progress := .busy }).onEditor
      fun e => { e with afterReturn := k = Key.carriageReturn }) takes h.consumer h.installed
  rw [accepted] at pressed
  refine ⟨_, result_feedChar_of_read h.idle read unmarked pressed, ?_, ?_⟩
  · refine ⟨left.installed.trans h.installed, ?_, left.line, ?_, kept.trans h.consumer⟩
    · have decoder : u.editor.decoder = { progress := .busy } := left.decoder
      simp only [readyKeys, onEditor, decoder]
    · calc u.editor.afterReturn
          = decide (k = .carriageReturn) := left.afterReturn
        _ = decide (c = '\r') := by simp only [same]
  · have line : s.editor.line.toString = String.ofList typed := by
      rw [h.line]
      simp [Line.toString, Line.ofText, Line.ofParts]
    exact more.trans (by rw [← line]; rfl)

/-! ### Typing a text -/

namespace Text

/-- What is left of a text when a line feed at its beginning belongs to a carriage return that came
before. -/
def behind (latch : Bool) : List Char → List Char
  | '\n' :: rest => if latch then rest else '\n' :: rest
  | text => text

theorem behind_false (text : List Char) : behind false text = text := by
  unfold behind
  split <;> rfl

theorem behind_cons (latch : Bool) {c : Char} (other : c ≠ '\n') (text : List Char) :
    behind latch (c :: text) = c :: text := by
  unfold behind
  split
  · rename_i h
    cases h
    exact absurd rfl other
  · rfl

theorem unifyNewlines_return (text : List Char) :
    unifyNewlines ('\r' :: text) = '\n' :: unifyNewlines (behind true text) := by
  cases text with
  | nil => rfl
  | cons c text =>
      by_cases h : c = '\n'
      · subst h
        rfl
      · rw [behind_cons true h, unifyNewlines]
        intro rest same
        cases same
        exact h rfl

theorem unifyNewlines_cons {c : Char} (other : c ≠ '\r') (text : List Char) :
    unifyNewlines (c :: text) = c :: unifyNewlines text := by
  rw [unifyNewlines]
  · intro rest same _
    exact other same
  · intro same
    exact other same

theorem pieces_append {sep : Char} {s : List Char} (unparted : sep ∉ s) (rest : List Char) :
    pieces sep (s ++ sep :: rest) = s :: pieces sep rest := by
  induction s with
  | nil => simp [pieces]
  | cons c s ih =>
      rw [List.mem_cons, not_or] at unparted
      rw [List.cons_append, pieces, if_neg (Ne.symm unparted.1), ih unparted.2]

theorem pieces_of_not_mem {sep : Char} {s : List Char} (unparted : sep ∉ s) :
    pieces sep s = [s] := by
  induction s with
  | nil => rfl
  | cons c s ih =>
      rw [List.mem_cons, not_or] at unparted
      rw [pieces, if_neg (Ne.symm unparted.1), ih unparted.2]

end Text

/-- A text that goes on with a line: the lines completed by it are taken down, and its last line
stands in the editor. -/
theorem Session.Typing.forM (h : s.Typing handler typed latch)
    (takes : TakesLines call handler taken) (unended : '\n' ∉ typed)
    (plain : ∀ c ∈ text, IsTyped c) :
    ∃ t lines rest latch', (text.forM (feedChar call)).result s = (.ok ⟨⟩, t) ∧
      t.Typing handler rest latch' ∧
      Text.pieces '\n' (typed ++ Text.unifyNewlines (Text.behind latch text)) = lines ++ [rest] ∧
      taken t.programs = taken s.programs ++ lines.map String.ofList := by
  -- What has been typed and whether a return came last are all that the text before has left, so
  -- the induction is for every such state.
  induction text generalizing s typed latch with
  | nil =>
      refine ⟨s, [], typed, latch, rfl, h, ?_, by simp⟩
      have nothing : Text.unifyNewlines (Text.behind latch []) = [] := rfl
      rw [nothing, List.append_nil, Text.pieces_of_not_mem unended, List.nil_append]
  | cons c text ih =>
      have later : ∀ c ∈ text, IsTyped c := fun c member => plain c (List.mem_cons_of_mem _ member)
      by_cases paired : c = '\n' ∧ latch = true
      · obtain ⟨rfl, rfl⟩ := paired
        obtain ⟨t, fed, typing, same⟩ := h.lineFeed call
        obtain ⟨u, lines, rest, latch', run, left, cut, more⟩ := ih typing unended later
        refine ⟨u, lines, rest, latch', ?_, left, ?_, same ▸ more⟩
        · rw [result_forM_cons, fed]
          exact run
        · rw [← cut, Text.behind_false]
          rfl
      · by_cases ends : c = '\r' ∨ c = '\n'
        · have ends' : c = '\r' ∨ c = '\n' ∧ latch = false := by
            rcases ends with rfl | rfl
            · exact .inl rfl
            · exact .inr ⟨rfl, by simpa using paired⟩
          obtain ⟨t, fed, typing, taken_t⟩ := h.complete takes ends'
          obtain ⟨u, lines, rest, latch', run, left, cut, more⟩ := ih typing (by simp) later
          refine ⟨u, typed :: lines, rest, latch', ?_, left, ?_, ?_⟩
          · rw [result_forM_cons, fed]
            exact run
          · have unified : Text.unifyNewlines (Text.behind latch (c :: text)) =
                '\n' :: Text.unifyNewlines (Text.behind (c = '\r') text) := by
              rcases ends' with rfl | ⟨rfl, rfl⟩
              · rw [Text.behind_cons latch (by decide), Text.unifyNewlines_return]
                rfl
              · rw [Text.behind_false, Text.unifyNewlines_cons (by decide)]
                rw [show decide ('\n' = '\r') = false from rfl, Text.behind_false]
            rw [unified, Text.pieces_append unended, List.cons_append, ← cut, List.nil_append]
          · rw [more, taken_t, List.map_cons, List.append_assoc, List.singleton_append]
        · rw [not_or] at ends
          have literal : isControl c = false := by
            rcases plain c (List.mem_cons_self ..) with h | h | h
            · exact absurd h ends.1
            · exact absurd h ends.2
            · exact h
          obtain ⟨t, fed, typing, same⟩ := h.literal call literal
          have unended' : '\n' ∉ typed ++ [c] := by
            simpa [unended] using Ne.symm ends.2
          obtain ⟨u, lines, rest, latch', run, left, cut, more⟩ := ih typing unended' later
          refine ⟨u, lines, rest, latch', ?_, left, ?_, same ▸ more⟩
          · rw [result_forM_cons, fed]
            exact run
          · rw [← cut, Text.behind_cons latch ends.2, Text.unifyNewlines_cons ends.1,
              Text.behind_false, List.append_assoc, List.singleton_append]

/-! ### Text that arrives in pieces -/

/-- While keys are accepted, a text may be cut into any pieces. -/
theorem result_forM_feed {pieces : List (List Char)}
    (stays : ∀ text t, text <+: pieces.flatten →
      (text.forM (feedChar call)).result s = (.ok ⟨⟩, t) → t.editor.installed = true) :
    (pieces.forM (feed call)).result s = (pieces.flatten.forM (feedChar call)).result s := by
  induction pieces generalizing s with
  | nil => rfl
  | cons piece pieces ih =>
      have installed : s.editor.installed = true := stays [] s (List.nil_prefix ..) rfl
      have first : (feed call piece).result s = (piece.forM (feedChar call)).result s := by
        simp only [feed, result_get_bind, installed, if_true]
      rw [List.flatten_cons, result_forM_append, result_bind, result_forM_cons, first]
      rcases fed : (piece.forM (feedChar call)).result s with ⟨_ | _, t⟩
      · rfl
      · refine ih fun text u part run => stays (piece ++ text) u ?_ ?_
        · exact (List.prefix_append_right_inj piece).mpr part
        · rw [result_forM_append, result_bind, fed]
          exact run

/-- A new editor that has been installed, its lines going to a program. -/
def Session.installNew (s : Session σ) (handler : Option String → Program σ) (history : History)
    (eraseEmptyLine : Bool) (prompt : String) : Session σ :=
  { s with
    editor := ({ history, eraseEmptyLine } : Editor).install prompt
    consumer := .program handler }

theorem typing_installNew (s : Session σ) (handler : Option String → Program σ) (history : History)
    (eraseEmptyLine : Bool) (prompt : String) :
    (s.installNew handler history eraseEmptyLine prompt).Typing handler [] false :=
  ⟨rfl, rfl, rfl, rfl, rfl⟩

/-- Text without other control characters is fed to a new editor in any pieces. The lines that are
handed on are its lines, whichever way each is ended, and the line under edit is the rest behind the
last of them, with the point at the end. -/
theorem taken_of_pieces (takes : TakesLines call handler taken) {pieces : List (List Char)}
    (plain : ∀ c ∈ pieces.flatten, IsTyped c) (s : Session σ) (history : History)
    (eraseEmptyLine : Bool) (prompt : String) :
    ∃ t lines rest, (pieces.forM (feed call)).result
        (s.installNew handler history eraseEmptyLine prompt) = (.ok ⟨⟩, t) ∧
      Text.pieces '\n' (Text.unifyNewlines pieces.flatten) = lines ++ [rest] ∧
      taken t.programs = taken s.programs ++ lines.map String.ofList ∧
      t.editor.line = .ofText rest := by
  have begun := typing_installNew s handler history eraseEmptyLine prompt
  have stays : ∀ text t, text <+: pieces.flatten →
      (text.forM (feedChar call)).result (s.installNew handler history eraseEmptyLine prompt) =
        (.ok ⟨⟩, t) → t.editor.installed = true := by
    intro text t part run
    obtain ⟨u, _, _, _, run', left, -⟩ := begun.forM takes (by simp)
      fun c member => plain c (part.subset member)
    cases run.symm.trans run'
    exact left.installed
  obtain ⟨t, lines, rest, latch, run, left, cut, more⟩ := begun.forM takes (by simp) plain
  refine ⟨t, lines, rest, ?_, ?_, more, left.line⟩
  · rw [result_forM_feed stays]
    exact run
  · rwa [Text.behind_false] at cut

def notebook (line : Option String) : Program (List String) :=
  .note (· ++ line.toList) (.done .nothing)

theorem takesLines_notebook : TakesLines (Program.exec 1) notebook id := by
  intro line s
  exact ⟨_, _, rfl, ⟨rfl, rfl, rfl, rfl⟩, rfl, rfl⟩

/-- Returns with and without line feeds, and line feeds alone, cut between the two of a pair. -/
def mixedPieces : List (List Char) := [['a', '\r'], ['\n', '\r', '\r'], [], ['\n', '\n', 'b']]

theorem taken_mixedPieces : ∃ t,
    (mixedPieces.forM (feed (Program.exec 1))).result
      ((bareShell [] []).installNew notebook {} true "") = (.ok ⟨⟩, t) ∧
    t.programs = ["a", "", "", ""] ∧ t.editor.line = .ofText ['b'] := by
  have plain : ∀ c ∈ mixedPieces.flatten, IsTyped c := by
    have all : (mixedPieces.flatten.all fun c => c = '\r' || c = '\n' || !isControl c) = true := by
      decide
    intro c member
    simpa [IsTyped, or_assoc] using List.all_eq_true.mp all c member
  obtain ⟨t, lines, rest, fed, cut, taken, line⟩ :=
    taken_of_pieces takesLines_notebook plain (bareShell [] []) {} true ""
  have cut' : [['a'], [], [], []] ++ [['b']] = lines ++ [rest] := cut
  obtain ⟨rfl, same⟩ := List.append_inj' cut' rfl
  cases same
  exact ⟨t, fed, taken, line⟩

end LineShell
