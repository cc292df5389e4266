import LineShell.Proofs.Apart

/-!
# The first key of a text

Whether a carriage return came last matters only to a line feed that is the first key. What does not
begin with a line feed has another first key, after which nothing is known any more of what came
before. Until then characters wait in the decoder, as the beginning of a sequence or as pasted text.
-/

namespace LineShell

open Act Edit Session

/-! ### Reading the first key -/

namespace Edit.Key

/-- What begins pasted text. -/
def pasteMark : List Char := ['\x1b', '[', '2', '0', '0', '~']

/-- Keys do not begin with a line feed unless the sequence does, and the mark of pasted text is one
key. -/
theorem head_of_mem_sequences {entry : List Char × List Key} (h : entry ∈ Key.sequences)
    (other : entry.1.head? ≠ some '\n') :
    ∃ k more, entry.2 = k :: more ∧ k ≠ .lineFeed ∧
      (k = .pasteStart → entry.1 = pasteMark ∧ more = []) := by
  have all : ∀ entry ∈ Key.sequences, entry.1.head? ≠ some '\n' →
      entry.2 ≠ [] ∧ entry.2.head? ≠ some .lineFeed ∧
        (entry.2.head? = some .pasteStart → entry.1 = pasteMark ∧ entry.2.tail = []) := by
    decide +kernel
  obtain ⟨sequence, keys⟩ := entry
  obtain ⟨some, feed, paste⟩ := all _ h other
  cases keys with
  | nil => exact absurd rfl some
  | cons k more =>
      exact ⟨k, more, rfl, fun hk => feed (congrArg Option.some hk), fun hk =>
        paste (congrArg Option.some hk)⟩

theorem head_of_ofSequence? {s : List Char} {keys : List Key} (h : ofSequence? s = some keys)
    (other : s.head? ≠ some '\n') :
    ∃ k more, keys = k :: more ∧ k ≠ .lineFeed ∧ (k = .pasteStart → s = pasteMark ∧ more = []) := by
  unfold ofSequence? at h
  split at h
  · cases h
    exact ⟨_, _, rfl, by simp, by simp⟩
  · split at h
    · cases h
      exact ⟨_, _, rfl, by simp, by simp⟩
    · obtain ⟨entry, found, rfl⟩ := Option.map_eq_some_iff.1 h
      have same : entry.1 = s := by simpa using List.find?_some found
      subst same
      exact head_of_mem_sequences (List.mem_of_find?_eq_some found) other

/-- The mark of pasted text is the end of a sequence. -/
theorem not_pasteMark_prefix_of_isOpen {s : List Char} (h : isOpen s = true) :
    ¬ pasteMark <+: s := by
  rintro marked
  simp only [isOpen, Bool.or_eq_true, List.any_eq_true, Bool.and_eq_true, decide_eq_true_eq] at h
  rcases h with report | ⟨entry, he, longer, other⟩
  · obtain ⟨rest, rfl⟩ := marked
    have mark : isParameter '~' = false := by decide +kernel
    simp [pasteMark, isReportStart, parameters, mark] at report
  · have all : ∀ entry ∈ Key.sequences, pasteMark <+: entry.1 → entry.1 = pasteMark := by
      decide +kernel
    have whole := all entry he (marked.trans (List.isPrefixOf_iff_prefix.1 longer))
    have within : s <+: entry.1 := List.isPrefixOf_iff_prefix.1 longer
    rw [whole] at within other
    exact other (within.eq_of_length_le marked.length_le)

end Edit.Key

namespace Edit.KeyDecoder

theorem readLongest_eq (n : Nat) (s : List Char) :
    (readLongest n s).1 = [] ∨ ∃ m keys more rest, 0 < m ∧ Key.ofSequence? (s.take m) = some keys ∧
      readLongest n s = (keys ++ more, rest) := by
  induction n with
  | zero => exact .inl rfl
  | succ n ih =>
      rw [readLongest]
      cases h : Key.ofSequence? (s.take (n + 1)) with
      | none => exact ih
      | some keys => exact .inr ⟨n + 1, keys, _, _, n.succ_pos, h, rfl⟩

/-- The first key of what can no longer become a sequence. -/
theorem readSome_eq {s : List Char} (nonempty : s ≠ []) (other : s.head? ≠ some '\n')
    (whole : Key.ofSequence? s = none) (unmarked : Key.pasteMark <+: s → s = Key.pasteMark) :
    ∃ k more rest, readSome s = (k :: more, rest) ∧ k ≠ .lineFeed ∧ k ≠ .pasteStart := by
  obtain ⟨c, tail, rfl⟩ := List.exists_cons_of_ne_nil nonempty
  rcases h : readLongest (c :: tail).length (c :: tail) with ⟨_ | ⟨k, more⟩, rest⟩
  · exact ⟨.literal c, [], tail, by unfold readSome; rw [h], by simp, by simp⟩
  · refine ⟨k, more, rest, by unfold readSome; rw [h], ?_⟩
    obtain none_found | ⟨m, keys, more', rest', pos, found, all⟩ :=
      readLongest_eq (c :: tail).length (c :: tail)
    · rw [h] at none_found
      cases none_found
    · have first : ((c :: tail).take m).head? ≠ some '\n' := by
        rwa [List.head?_take, if_neg (by omega)]
      obtain ⟨k', more'', rfl, feed, paste⟩ := Key.head_of_ofSequence? found first
      rw [h] at all
      cases all
      refine ⟨feed, fun hk => ?_⟩
      -- The mark would be all of the text, which is no sequence.
      have mark := (paste hk).1
      have part : Key.pasteMark <+: c :: tail := mark ▸ List.take_prefix m _
      rw [mark, ← unmarked part, whole] at found
      cases found

/-- What is read of a text that does not begin with a line feed, and in which nothing follows the
mark of pasted text: nothing yet, or that mark, or a key that is no line feed. -/
theorem settle_eq {s : List Char} (n : Nat) (nonempty : s ≠ []) (other : s.head? ≠ some '\n')
    (unmarked : Key.pasteMark <+: s → s = Key.pasteMark) :
    settle (n + 1) s = ([], s) ∧ Key.isOpen s = true ∨ settle (n + 1) s = ([.pasteStart], []) ∨
      ∃ k more rest, settle (n + 1) s = (k :: more, rest) ∧ k ≠ .lineFeed ∧ k ≠ .pasteStart := by
  have something : s.isEmpty = false := by simpa using nonempty
  simp only [settle, something, Bool.false_or]
  cases opens : Key.isOpen s with
  | true => exact .inl ⟨rfl, rfl⟩
  | false =>
      simp only [Bool.false_eq_true, if_false]
      cases whole : Key.ofSequence? s with
      | some keys =>
          obtain ⟨k, more, rfl, feed, paste⟩ := Key.head_of_ofSequence? whole other
          by_cases hk : k = .pasteStart
          · obtain ⟨-, rfl⟩ := paste hk
            exact .inr (.inl (by rw [hk]))
          · exact .inr (.inr ⟨k, more, [], rfl, feed, hk⟩)
      | none =>
          obtain ⟨k, more, rest, hs, feed, paste⟩ := readSome_eq nonempty other whole unmarked
          refine .inr (.inr ⟨k, more ++ (settle n rest).1, (settle n rest).2, ?_, feed, paste⟩)
          simp only [hs, List.cons_append]

/-- The first key is yet to come, and with `c` coming next it is no line feed. -/
def Expects (d : KeyDecoder) (c : Char) : Prop :=
  d.paste.isSome = true ∨
    d.stalled = false ∧ (d.pending ++ [c]).head? ≠ some '\n' ∧ ¬ Key.pasteMark <+: d.pending

theorem expects_of_waiting {d : KeyDecoder} (fresh : d.stalled = false) (waiting : d.pending ≠ [])
    (other : d.pending.head? ≠ some '\n') (unmarked : ¬ Key.pasteMark <+: d.pending) (c : Char) :
    d.Expects c := by
  refine .inr ⟨fresh, ?_, unmarked⟩
  rwa [List.head?_append, List.head?_eq_some_head waiting, Option.some_or,
    ← List.head?_eq_some_head waiting]

theorem Expects.read {d : KeyDecoder} {c : Char} (h : d.Expects c) (outside : d.paste = none) :
    (∃ s, d.read c = ([], { d with pending := s }) ∧ s ≠ [] ∧ s.head? ≠ some '\n' ∧
        ¬ Key.pasteMark <+: s) ∨
      (∃ d', d.read c = ([.pasteStart], d')) ∨
      ∃ k more d', d.read c = (k :: more, d') ∧ k ≠ .lineFeed ∧ k ≠ .pasteStart := by
  obtain ⟨-, other, unmarked⟩ := h.resolve_left (by simp [outside])
  have nonempty : d.pending ++ [c] ≠ [] := by simp
  have last : Key.pasteMark <+: d.pending ++ [c] → d.pending ++ [c] = Key.pasteMark := by
    intro marked
    rcases List.prefix_concat_iff.1 marked with whole | part
    · exact whole.symm
    · exact absurd part unmarked
  have length : (d.pending ++ [c]).length = d.pending.length + 1 := by simp
  simp only [KeyDecoder.read, length]
  rcases settle_eq d.pending.length nonempty other last with
    ⟨waits, opens⟩ | paste | ⟨k, more, rest, found, feed, paste⟩
  · rw [waits]
    exact .inl ⟨_, rfl, nonempty, other, Key.not_pasteMark_prefix_of_isOpen opens⟩
  · rw [paste]
    exact .inr (.inl ⟨_, rfl⟩)
  · rw [found]
    exact .inr (.inr ⟨k, more, _, rfl, feed, paste⟩)

end Edit.KeyDecoder

/-! ### Pressing the first key -/

variable {σ : Type} {s s' : Session σ} {latched : Prop}

def Session.forget (s : Session σ) : Session σ :=
  s.onEditor ({ · with afterReturn := false })

theorem result_pressKey_forget {call : Program σ → Act σ Reply} {k : Key} (other : k ≠ .lineFeed)
    (installed : s.editor.installed = true) :
    (pressKey call k).result s.forget = (pressKey call k).result s := by
  have removed : (!s.editor.installed) = false := by simp [installed]
  have removed' : (!s.forget.editor.installed) = false := removed
  simp only [pressKey, result_get_bind, removed, removed', other, decide_false, Bool.false_and,
    Bool.false_eq_true, if_false, result_modify_bind]
  rfl

theorem SideBySide.pressKey (h : SideBySide latched s s') (depth : Nat) {k : Key}
    (other : k ≠ .lineFeed) (installed : s.editor.installed = true) :
    Ends (SideBySide True) (fun _ => SideBySide True)
      ((Session.pressKey (Program.exec depth) k).result s)
      ((Session.pressKey (Program.exec depth) k).result s') := by
  have installed' : s'.editor.installed = true :=
    (congrArg (·.installed) h.1.editor.plain).trans installed
  have forgotten : SideBySide True s.forget s'.forget :=
    h.onEditor (f := ({ · with afterReturn := false }))
      ⟨h.1.editor.plain, h.1.editor.draft, fun _ => rfl⟩
  rw [← result_pressKey_forget other installed, ← result_pressKey_forget other installed']
  exact keys_sideBySide.pressKey (closed_sideBySide.exec depth) (closed_sideBySide.exec depth) k
    forgotten

/-- Two sessions are side by side, also in whether a carriage return came last unless the first key
is yet to come. -/
def Expecting : Link σ := fun s s' =>
  SideBySide True s s' ∨
    SideBySide False s s' ∧ s.editor.installed = true ∧ ∀ c, s.editor.decoder.Expects c

theorem SideBySide.decode (h : SideBySide latched s s') (f : KeyDecoder → KeyDecoder) :
    SideBySide latched (s.onEditor fun e => { e with decoder := f e.decoder })
      (s'.onEditor fun e => { e with decoder := f e.decoder }) :=
  h.edit (fun _ => rfl) fun _ => ⟨rfl, rfl, rfl⟩

theorem SideBySide.await (h : SideBySide False s s') (installed : s.editor.installed = true)
    (f : KeyDecoder → KeyDecoder) (expects : ∀ c, (f s.editor.decoder).Expects c) :
    Expecting (s.onEditor fun e => { e with decoder := f e.decoder })
      (s'.onEditor fun e => { e with decoder := f e.decoder }) :=
  .inr ⟨h.decode f, installed, expects⟩

theorem SideBySide.feedChar (h : SideBySide False s s') (depth : Nat) {c : Char}
    (installed : s.editor.installed = true) (expects : s.editor.decoder.Expects c) :
    Ends Expecting (fun _ => SideBySide False)
      ((Session.feedChar (Program.exec depth) c).result s)
      ((Session.feedChar (Program.exec depth) c).result s') := by
  have decoder : s'.editor.decoder = s.editor.decoder := congrArg (·.decoder) h.1.editor.plain
  simp only [Session.feedChar, result_get_bind, decoder]
  cases paste : s.editor.decoder.paste with
  | some received =>
      simp only
      split
      · exact (ends_ok ..).2 (h.await installed (fun _ => _) fun _ => .inl rfl)
      · refine (h.pressKey depth (by simp) installed).unlatch.bind fun _ t t' ht => ?_
        exact (ends_ok ..).2 (.inl (ht.decode fun d => { d with paste := none }))
  | none =>
      have fresh := (expects.resolve_left (by simp [paste])).1
      simp only [fresh, Bool.false_eq_true, if_false]
      rcases expects.read paste with ⟨text, hd, nonempty, other, unmarked⟩ | ⟨d, hd⟩ |
        ⟨k, more, d, hd, feed, mark⟩
      · -- The sequence is not complete.
        rw [hd]
        exact (ends_ok ..).2 (h.await installed
          (fun _ => { s.editor.decoder with pending := text, progress := .ready })
          (KeyDecoder.expects_of_waiting rfl nonempty other unmarked))
      · -- Pasted text begins.
        rw [hd]
        exact (ends_ok ..).2 (h.await installed
          (fun _ => { d with paste := some [], progress := .ready }) fun _ => .inl rfl)
      · rw [hd]
        simp only [result_modify_bind]
        refine ends_handled (M := SideBySide True) (F := fun _ => SideBySide False)
          (Ends.bind (M := SideBySide True) ?first fun _ t t' ht => ?more)
          (fun t t' ht => .inl (ht.decode fun d => { d with progress := .ready }))
          fun _ t t' ht => ht.decode (·.giveUp)
        case first =>
          rw [Session.deliverKey, if_neg mark]
          have began := h.decode fun _ => { d with progress := .busy }
          exact (began.pressKey depth feed installed).unlatch
        case more =>
          exact Ends.forM (fun key _ _ hu => (keys_sideBySide.deliverKey
            (closed_sideBySide.exec depth) (closed_sideBySide.exec depth) key hu).unlatch) more ht

/-- Once the first key has been read, a text goes on alike. -/
theorem Expecting.feed {text : List Char} (h : Expecting s s') (depth : Nat) :
    Ends Expecting (fun _ => SideBySide False)
      ((text.forM (Session.feedChar (Program.exec depth))).result s)
      ((text.forM (Session.feedChar (Program.exec depth))).result s') := by
  refine Ends.forM (fun c t t' ht => ?_) text h
  rcases ht with together | ⟨apart, installed, expects⟩
  · exact (keys_sideBySide.feedChar (closed_sideBySide.exec depth) (closed_sideBySide.exec depth) c
      together).unlatch.weaken (fun _ _ => .inl) fun _ _ _ ht => ht
  · exact apart.feedChar depth installed (expects c)

theorem Expecting.apart (h : Expecting s s') : SideBySide False s s' :=
  h.elim SideBySide.weaken fun h => h.1

/-- Sessions side by side go on alike with any text, as long as it does not begin with a line feed
that is to be told from the one behind a carriage return. -/
theorem SideBySide.feed (h : SideBySide latched s s') (depth : Nat) (text : List Char)
    (free : latched ∨ s.editor.installed = true ∧ s.editor.decoder = {} ∧ text.head? ≠ some '\n') :
    Ends (SideBySide False) (fun _ => SideBySide False)
      ((Session.feed (Program.exec depth) text).result s)
      ((Session.feed (Program.exec depth) text).result s') := by
  rcases free with latch | ⟨installed, decoder, other⟩
  · have together : SideBySide True s s' :=
      ⟨⟨h.1.frame, ⟨h.1.editor.plain, h.1.editor.draft, fun _ => h.1.editor.latch latch⟩,
        h.1.attached⟩, h.2⟩
    exact (keys_sideBySide.feed (closed_sideBySide.exec depth) (closed_sideBySide.exec depth) text
      together).unlatch.weaken (fun _ _ => SideBySide.weaken) fun _ _ _ ht => ht
  · have installed' : s'.editor.installed = true :=
      (congrArg (·.installed) h.1.editor.plain).trans installed
    simp only [Session.feed, result_get_bind, installed, installed', if_true]
    cases text with
    | nil => exact (ends_ok ..).2 h.weaken
    | cons c text =>
        have expects : s.editor.decoder.Expects c := by
          rw [decoder]
          exact .inr ⟨rfl, other, by decide⟩
        exact (Ends.bind (h.weaken.feedChar depth installed expects) fun _ t t' ht =>
          ht.feed depth).weaken (fun _ _ => Expecting.apart) fun _ _ _ ht => ht

end LineShell
