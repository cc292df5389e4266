import LineShell.Proofs.Pasting
import LineShell.Proofs.Strokes

/-!
# Text that stays one row

No character that ends a line is a key by itself, so none is typed; what is pasted is put together
from the rows of a text; and the editor puts nothing else into its line than what it holds already
in its history and its draft.
-/

namespace LineShell

open Act Edit Session

/-- A text is one row: it holds neither line feeds nor carriage returns. -/
def Unbroken (text : List Char) : Prop := ∀ c ∈ text, c ≠ '\n' ∧ c ≠ '\r'

instance (text : List Char) : Decidable (Unbroken text) :=
  List.decidableBAll (fun c => c ≠ '\n' ∧ c ≠ '\r') text

section Texts

variable {text more : List Char} {p : Char → Bool}

@[simp] theorem unbroken_nil : Unbroken [] := List.forall_mem_nil _

@[simp] theorem unbroken_append : Unbroken (text ++ more) ↔ Unbroken text ∧ Unbroken more :=
  List.forall_mem_append

@[simp] theorem unbroken_cons {c : Char} :
    Unbroken (c :: text) ↔ (c ≠ '\n' ∧ c ≠ '\r') ∧ Unbroken text :=
  List.forall_mem_cons

theorem Unbroken.mono (h : Unbroken text) (part : ∀ c ∈ more, c ∈ text) : Unbroken more :=
  fun c hc => h c (part c hc)

theorem Unbroken.take (h : Unbroken text) (n : Nat) : Unbroken (text.take n) :=
  h.mono fun _ hc => List.mem_of_mem_take hc

theorem Unbroken.drop (h : Unbroken text) (n : Nat) : Unbroken (text.drop n) :=
  h.mono fun _ hc => List.mem_of_mem_drop hc

theorem Unbroken.dropRight (h : Unbroken text) (p : Char → Bool) :
    Unbroken (Text.dropRight p text) := by
  refine h.mono fun c hc => ?_
  rw [Text.dropRight, List.mem_reverse] at hc
  exact List.mem_reverse.1 ((List.dropWhile_sublist p).subset hc)

theorem unbroken_pasted (content : List Char) : Unbroken (pasted content) := by
  intro c member
  have other := isLineBreak_of_mem_pasted member
  constructor
  all_goals
    rintro rfl
    cases other

theorem Unbroken.commonStartOf {texts : List (List Char)} (h : ∀ text ∈ texts, Unbroken text) :
    Unbroken (Completion.commonStartOf texts) := by
  have start : ∀ a b, Unbroken a → Unbroken (Completion.commonStart a b) := by
    intro a b ha
    fun_induction Completion.commonStart a b with
    | case1 s c t ih =>
        rw [unbroken_cons] at ha ⊢
        exact ⟨ha.1, ih ha.2⟩
    | case2 => exact unbroken_nil
    | case3 => exact unbroken_nil
  have fold : ∀ (rest : List (List Char)) a, Unbroken a →
      Unbroken (rest.foldl Completion.commonStart a) := by
    intro rest
    induction rest with
    | nil => exact fun a ha => ha
    | cons b rest ih => exact fun a ha => ih _ (start a b ha)
  cases texts with
  | nil => exact unbroken_nil
  | cons a rest => exact fold rest a (h a (List.mem_cons_self ..))

theorem Unbroken.commonSuffix {found : List (List Char)} (h : ∀ text ∈ found, Unbroken text)
    (before : List Char) (n : Nat) : Unbroken (Completion.commonSuffix before n found) := by
  unfold Completion.commonSuffix
  split
  · apply Unbroken.commonStartOf
    intro text member
    obtain ⟨whole, there, rfl⟩ := List.mem_map.1 member
    exact (h whole there).drop n
  · exact unbroken_nil

end Texts

/-! ### Lines -/

namespace Edit.Line

variable {l : Line}

theorem unbroken_text : Unbroken l.text ↔ Unbroken l.before ∧ Unbroken l.after := by
  rw [← unbroken_append, before_append_after]

theorem unbroken_ofText {text : List Char} : Unbroken (ofText text).text ↔ Unbroken text := by
  simp [ofText, ofParts]

theorem unbroken_insert {text : List Char} (h : Unbroken l.text) (new : Unbroken text) :
    Unbroken (l.insert text).text := by
  rw [unbroken_text] at h ⊢
  simp [h, new]

theorem unbroken_deleteBefore (h : Unbroken l.text) (n : Nat) :
    Unbroken (l.deleteBefore n).text := by
  unfold deleteBefore
  split
  · exact h
  · refine unbroken_append.2 ⟨?_, (unbroken_text.1 h).2⟩
    unfold Text.sliceTo
    split <;> exact h.take _

theorem unbroken_deleteAfter (h : Unbroken l.text) (n : Nat) :
    Unbroken (l.deleteAfter n).text := by
  rw [unbroken_text] at h ⊢
  simp [h, h.2.drop]

end Edit.Line

/-! ### Keys -/

namespace Edit.Key

/-- The key does not type a character that ends a line. -/
def Keeps (k : Key) : Prop := ∀ c, k = .literal c → c ≠ '\n' ∧ c ≠ '\r'

def isLiteral : Key → Bool
  | literal _ => true
  | _ => false

theorem keeps_of_not_literal {k : Key} (h : k.isLiteral = false) : k.Keeps := by
  rintro c rfl
  cases h

/-- A sequence stands for some keys, none of which is a character. -/
theorem ofSequence?_keys {s : List Char} {keys : List Key} (h : ofSequence? s = some keys) :
    keys ≠ [] ∧ ∀ k ∈ keys, k.Keeps := by
  have listed : ∀ entry ∈ sequences, entry.2 ≠ [] ∧ ∀ k ∈ entry.2, k.isLiteral = false := by
    decide +kernel
  have report : ∀ name, [Key.other name] ≠ [] ∧ ∀ k ∈ [Key.other name], k.Keeps := by
    intro name
    refine ⟨by simp, fun k hk => keeps_of_not_literal ?_⟩
    cases List.mem_singleton.1 hk
    rfl
  unfold ofSequence? at h
  split at h
  · cases h
    exact report _
  · split at h
    · cases h
      exact report _
    · obtain ⟨entry, found, rfl⟩ := Option.map_eq_some_iff.1 h
      have all := listed entry (List.mem_of_find?_eq_some found)
      exact ⟨all.1, fun k hk => keeps_of_not_literal (all.2 k hk)⟩

end Edit.Key

namespace Edit.KeyDecoder

theorem keeps_readLongest (n : Nat) (s : List Char) : ∀ k ∈ (readLongest n s).1, k.Keeps := by
  induction n generalizing s with
  | zero => exact List.forall_mem_nil _
  | succ n ih =>
      rw [readLongest]
      split
      · rename_i keys read
        intro k hk
        rcases List.mem_append.1 hk with hk | hk
        · exact (Key.ofSequence?_keys read).2 k hk
        · exact ih _ k hk
      · exact ih s

/-- Where no sequence is found at the beginning of a text, its first character is none. -/
theorem ofSequence?_of_readLongest {c : Char} {rest : List Char} {n : Nat}
    (nothing : (readLongest (n + 1) (c :: rest)).1 = []) : Key.ofSequence? [c] = none := by
  induction n with
  | zero =>
      rw [readLongest] at nothing
      split at nothing
      · rename_i keys read
        exact absurd (List.append_eq_nil_iff.1 nothing).1 (Key.ofSequence?_keys read).1
      · assumption
  | succ n ih =>
      rw [readLongest] at nothing
      split at nothing
      · rename_i keys read
        exact absurd (List.append_eq_nil_iff.1 nothing).1 (Key.ofSequence?_keys read).1
      · exact ih nothing

theorem keeps_readSome (s : List Char) : ∀ k ∈ (readSome s).1, k.Keeps := by
  cases s with
  | nil => exact List.forall_mem_nil _
  | cons c rest =>
      have some := keeps_readLongest (c :: rest).length (c :: rest)
      unfold readSome
      rcases found : readLongest (c :: rest).length (c :: rest) with ⟨_ | ⟨k, more⟩, left⟩
      · have none := ofSequence?_of_readLongest (n := rest.length) (congrArg Prod.fst found)
        intro k hk
        cases List.mem_singleton.1 hk
        rintro _ ⟨⟩
        constructor
        all_goals
          rintro rfl
          revert none
          decide +kernel
      · rw [found] at some
        exact some

theorem keeps_settle (fuel : Nat) (s : List Char) : ∀ k ∈ (settle fuel s).1, k.Keeps := by
  induction fuel generalizing s with
  | zero => exact List.forall_mem_nil _
  | succ fuel ih =>
      rw [settle]
      split
      · exact List.forall_mem_nil _
      · split
        · rename_i keys read
          exact (Key.ofSequence?_keys read).2
        · intro k hk
          rcases List.mem_append.1 hk with hk | hk
          · exact keeps_readSome s k hk
          · exact ih _ k hk

/-- No key that is read types a character that ends a line. -/
theorem keeps_read (d : KeyDecoder) (c : Char) : ∀ k ∈ (d.read c).1, k.Keeps :=
  keeps_settle _ _

end Edit.KeyDecoder

/-- Of the keys that a text presses none types a character that ends a line. -/
theorem keeps_of_mem_strokes {σ : Type} {call : Program σ → Act σ Reply} {s : Session σ}
    {pieces : List (List Char)} {x : Stroke σ} (h : x ∈ strokes call s pieces) : x.2.Keeps := by
  obtain ⟨t, text, -, inText⟩ := mem_visits h
  unfold textStrokes at inText
  split at inText
  · obtain ⟨u, c, -, inChar⟩ := mem_visits inText
    unfold charStrokes at inChar
    split at inChar
    · split at inChar
      · cases List.mem_singleton.1 inChar
        exact Key.keeps_of_not_literal rfl
      · cases inChar
    · split at inChar
      · cases inChar
      · obtain ⟨v, k, read, inKey⟩ := mem_visits inChar
        split at inKey
        · cases inKey
        · cases List.mem_singleton.1 inKey
          exact KeyDecoder.keeps_read _ _ k read
  · cases inText

/-! ### The editor -/

namespace Edit.Editor

theorem unbroken_edit? {l m : Line} {k : Key} (h : Unbroken l.text) (keeps : k.Keeps)
    (edited : edit? l k = some m) : Unbroken m.text := by
  have parts := Line.unbroken_text.1 h
  cases k with
  | literal c =>
      cases edited
      exact Line.unbroken_insert h (by simpa using keeps c rfl)
  | pasted content =>
      cases edited
      exact Line.unbroken_insert h (unbroken_pasted content)
  | controlD | delete =>
      cases edited
      exact Line.unbroken_deleteAfter h 1
  | backspace =>
      cases edited
      exact Line.unbroken_deleteBefore h 1
  | lineStart | lineEnd =>
      cases edited
      exact h
  | left =>
      cases edited
      rwa [Line.text_moveLeft]
  | right =>
      cases edited
      rwa [Line.text_moveRight]
  | killAfter =>
      cases edited
      exact Line.unbroken_deleteAfter h _
  | killBefore =>
      cases edited
      exact Line.unbroken_deleteBefore h _
  | killWord =>
      cases edited
      rw [Line.killWord_eq]
      exact unbroken_append.2 ⟨(parts.1.dropRight _).dropRight _, parts.2⟩
  | _ => cases edited

/-- All that may come to the line of an editor is one row. -/
structure OneRow (e : Editor) : Prop where
  line : Unbroken e.line.text
  draft : Unbroken e.draft
  history : ∀ entry ∈ e.history.entries, Unbroken entry.toList

variable {e : Editor}

theorem OneRow.withLine (h : e.OneRow) {line : Line} (unbroken : Unbroken line.text) :
    ({ e with line } : Editor).OneRow := ⟨unbroken, h.draft, h.history⟩

theorem OneRow.replaceLine (h : e.OneRow) {text : List Char} (unbroken : Unbroken text) :
    (e.replaceLine text).OneRow := h.withLine (Line.unbroken_ofText.2 unbroken)

theorem OneRow.beginRecall (h : e.OneRow) : e.beginRecall.OneRow := by
  unfold Editor.beginRecall
  split
  · exact h
  · exact ⟨h.line, h.line, h.history⟩

theorem OneRow.recallOlder (h : e.OneRow) : e.recallOlder.1.OneRow := by
  have begun := h.beginRecall
  unfold Editor.recallOlder
  split
  · exact h
  · simp only
    split
    · rename_i i _
      have moved : ({ e.beginRecall with recalled := some i } : Editor).OneRow :=
        ⟨begun.line, begun.draft, begun.history⟩
      split
      · rename_i entry found
        exact moved.replaceLine (begun.history entry (List.mem_of_getElem? found))
      · exact moved
    · exact begun

theorem OneRow.recallNewer (h : e.OneRow) : e.recallNewer.OneRow := by
  unfold Editor.recallNewer
  split
  · exact h
  · rename_i i _
    split
    · rename_i entry found
      have moved : ({ e with recalled := some (i + 1) } : Editor).OneRow :=
        ⟨h.line, h.draft, h.history⟩
      exact moved.replaceLine (h.history entry (List.mem_of_getElem? found))
    · have back : ({ e with recalled := none } : Editor).OneRow := ⟨h.line, h.draft, h.history⟩
      exact back.replaceLine h.draft

end Edit.Editor

namespace Edit.Editor.OneRow

variable {e : Editor}

theorem redisplayIfInstalled (h : e.OneRow) : e.redisplayIfInstalled.OneRow := by
  unfold Editor.redisplayIfInstalled
  split
  · exact ⟨h.line, h.draft, h.history⟩
  · exact h

theorem setPrompt (h : e.OneRow) (prompt : String) : (e.setPrompt prompt).OneRow := by
  have noted : (e.give prompt).OneRow := ⟨h.line, h.draft, h.history⟩
  exact noted.redisplayIfInstalled

theorem showMessage (h : e.OneRow) (text : String) : (e.showMessage text).OneRow := by
  have noted : ({ e with message := some text } : Editor).OneRow := ⟨h.line, h.draft, h.history⟩
  exact noted.redisplayIfInstalled

theorem restorePrompt (h : e.OneRow) : e.restorePrompt.OneRow := by
  have noted : ({ e with message := e.saved.headD none, saved := e.saved.tail } : Editor).OneRow :=
    ⟨h.line, h.draft, h.history⟩
  exact noted.redisplayIfInstalled

theorem write (h : e.OneRow) (text : String) : (e.write text).OneRow := by
  unfold Editor.write
  split
  · exact h
  · exact ⟨h.line, h.draft, h.history⟩

theorem print (h : e.OneRow) (text : String) : (e.print text).OneRow := by
  obtain ⟨_, _, printed⟩ := e.print_frame text
  rw [printed]
  exact ⟨h.line, h.draft, h.history⟩

theorem blank (h : e.OneRow) : e.blank.OneRow := by
  unfold Editor.blank
  split
  · exact ⟨h.line, h.draft, h.history⟩
  · exact h

theorem endRow (h : e.OneRow) : e.endRow.OneRow := by
  unfold Editor.endRow
  split
  · exact ⟨h.line, h.draft, h.history⟩
  · exact ⟨h.line, h.draft, h.history⟩

end Edit.Editor.OneRow

theorem Edit.History.unbroken_remember {h : History} {line : String}
    (all : ∀ entry ∈ h.entries, Unbroken entry.toList) (new : Unbroken line.toList) :
    ∀ entry ∈ (h.remember line).entries, Unbroken entry.toList := by
  have more : ∀ entry ∈ h.entries ++ [line], Unbroken entry.toList := by
    intro entry member
    rcases List.mem_append.1 member with old | last
    · exact all entry old
    · cases List.mem_singleton.1 last
      exact new
  unfold remember
  split
  · intro entry member
    change entry ∈ tail h.limit (h.entries ++ [line]) at member
    unfold tail at member
    split at member
    · exact more entry (List.mem_of_mem_drop member)
    · exact more entry member
  · exact all

end LineShell
