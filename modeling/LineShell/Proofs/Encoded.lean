import LineShell.Edit.History

/-!
# Texts as bytes, and entries as text

Decoding undoes encoding. A line feed is a byte of its own and part of no other character, so that
the lines of a file are those of its text; and the entries read from them are those that have been
written, whatever characters they are made of.
-/

namespace LineShell

namespace Text

namespace Utf8

theorem toNat_valid (c : Char) : c.toNat < 0xD800 ∨ 0xDFFF < c.toNat ∧ c.toNat < 0x110000 := c.valid

theorem run_cons_of_accept {s next : State} {b : Nat} {out : List Char} (small : b < 256)
    (h : s.accept b = some (out, next)) (rest : List UInt8) :
    s.run (UInt8.ofNat b :: rest) = (out ++ (next.run rest).1, (next.run rest).2) := by
  have same : (UInt8.ofNat b).toNat = b := by rw [UInt8.toNat_ofNat', Nat.mod_eq_of_lt small]
  simp only [State.run, State.step, same, h]

theorem accept_following {bits seen owed low high : Nat} (k : Nat) (above : low ≤ 0x80 + k % 64)
    (below : 0x80 + k % 64 ≤ high) : (State.inside bits seen owed low high).accept (0x80 + k % 64) =
      if owed = 1 then some ([Char.ofNat (bits * 64 + k % 64)], .start)
      else some ([], .inside (bits * 64 + k % 64) (seen + 1) (owed - 1) 0x80 0xBF) := by
  rw [State.accept, if_pos ⟨above, below⟩, Nat.add_sub_cancel_left]

/-- The bytes of a character are read as that character, and leave nothing open. -/
theorem run_encodeChar (c : Char) : State.start.run (encodeChar c) = ([c], .start) := by
  have valid := toNat_valid c
  have same : Char.ofNat c.toNat = c := Char.ofNat_toNat c
  unfold encodeChar
  generalize c.toNat = n at valid same
  subst same
  simp only
  split
  · rename_i one
    have first : State.start.accept n = some ([Char.ofNat n], .start) := by
      rw [State.accept, lead, if_pos one]
    rw [run_cons_of_accept (by omega) first]
    rfl
  · split
    · have first : State.start.accept (0xC0 + n / 64) =
          some ([], .inside (n / 64) 1 1 0x80 0xBF) := by
        rw [State.accept, lead, if_neg (by omega), if_neg (by omega), if_pos (by omega),
          Nat.add_sub_cancel_left]
      rw [run_cons_of_accept (by omega) first, run_cons_of_accept (by omega)
        (accept_following n (by omega) (by omega)), Nat.div_add_mod']
      rfl
    · split
      · have first : State.start.accept (0xE0 + n / 0x1000) = some ([], .inside (n / 0x1000) 1 2
            (if 0xE0 + n / 0x1000 = 0xE0 then 0xA0 else 0x80)
            (if 0xE0 + n / 0x1000 = 0xED then 0x9F else 0xBF)) := by
          rw [State.accept, lead, if_neg (by omega), if_neg (by omega), if_neg (by omega),
            if_pos (by omega), Nat.add_sub_cancel_left]
        have second : n / 0x1000 * 64 + n / 64 % 64 = n / 64 := by omega
        rw [run_cons_of_accept (by omega) first, run_cons_of_accept (by omega)
          (accept_following (n / 64) (by split <;> omega) (by split <;> omega)),
          run_cons_of_accept (by omega) (accept_following n (by omega) (by omega)), second,
          Nat.div_add_mod']
        rfl
      · have first : State.start.accept (0xF0 + n / 0x40000) = some ([], .inside (n / 0x40000) 1 3
            (if 0xF0 + n / 0x40000 = 0xF0 then 0x90 else 0x80)
            (if 0xF0 + n / 0x40000 = 0xF4 then 0x8F else 0xBF)) := by
          rw [State.accept, lead, if_neg (by omega), if_neg (by omega), if_neg (by omega),
            if_neg (by omega), if_pos (by omega), Nat.add_sub_cancel_left]
        have second : n / 0x40000 * 64 + n / 0x1000 % 64 = n / 0x1000 := by omega
        have third : n / 0x1000 * 64 + n / 64 % 64 = n / 64 := by omega
        rw [run_cons_of_accept (by omega) first, run_cons_of_accept (by omega)
          (accept_following (n / 0x1000) (by split <;> omega) (by split <;> omega)),
          run_cons_of_accept (by omega) (accept_following (n / 64) (by omega) (by omega)),
          run_cons_of_accept (by omega) (accept_following n (by omega) (by omega)), second, third,
          Nat.div_add_mod']
        rfl

theorem run_encode (s : List Char) : State.start.run (encode s) = (s, .start) := by
  induction s with
  | nil => rfl
  | cons c s ih =>
      rw [show encode (c :: s) = encodeChar c ++ encode s from rfl, State.run_append,
        run_encodeChar, ih]
      rfl

/-- Decoding undoes encoding. -/
theorem decode_encode (s : List Char) : decode (encode s) = s := by
  rw [decode, run_encode]
  exact List.append_nil s

theorem eq_of_lineFeed_eq_ofNat {b : Nat} (small : b < 256) (h : 10 = UInt8.ofNat b) : b = 10 := by
  have same := congrArg UInt8.toNat h
  rw [UInt8.toNat_ofNat', Nat.mod_eq_of_lt small] at same
  exact same.symm

/-- A line feed is part of no other character. -/
theorem eq_of_lineFeed_mem_encodeChar {c : Char} (h : 10 ∈ encodeChar c) : c = '\n' := by
  have valid := toNat_valid c
  have same : Char.ofNat c.toNat = c := Char.ofNat_toNat c
  unfold encodeChar at h
  generalize c.toNat = n at valid same h
  -- Only the first byte of a short character is below 128.
  have large : ∀ {b : Nat}, 0x80 ≤ b → b < 256 → (10 : UInt8) ≠ UInt8.ofNat b := by
    intro b above small h
    have := eq_of_lineFeed_eq_ofNat small h
    omega
  have following (bits : Nat) : (10 : UInt8) ≠ UInt8.ofNat (0x80 + bits % 64) :=
    large (by omega) (by omega)
  simp only at h
  split at h
  · have ten := eq_of_lineFeed_eq_ofNat (by omega) (List.mem_singleton.mp h)
    rw [← same, ten]
  · exfalso
    split at h
    · simp only [List.mem_cons, List.not_mem_nil, or_false, following] at h
      exact large (by omega) (by omega) h
    · split at h
      · simp only [List.mem_cons, List.not_mem_nil, or_false, following] at h
        exact large (by omega) (by omega) h
      · simp only [List.mem_cons, List.not_mem_nil, or_false, following] at h
        exact large (by omega) (by omega) h

theorem lineFeed_mem_of_mem_encode {s : List Char} (h : 10 ∈ encode s) : '\n' ∈ s := by
  obtain ⟨c, member, within⟩ := List.mem_flatMap.mp h
  exact eq_of_lineFeed_mem_encodeChar within ▸ member

end Utf8

end Text

/-! ### The lines of a file -/

namespace Edit.History

theorem fileLines_append {bytes : List UInt8} (inside : 10 ∉ bytes) (rest : List UInt8) :
    fileLines (bytes ++ 10 :: rest) = (bytes ++ [10]) :: fileLines rest := by
  induction bytes with
  | nil => rfl
  | cons b bytes ih =>
      have other : b ≠ 10 := (List.ne_of_not_mem_cons inside).symm
      rw [List.cons_append, fileLines, if_neg other, ih (List.not_mem_of_not_mem_cons inside)]
      rfl

/-- The lines of an encoded text, decoded. -/
def textLines (text : List Char) : List (List Char) :=
  (fileLines (Text.Utf8.encode text)).map Text.Utf8.decode

/-- The first line of a text goes up to the first line feed. -/
theorem textLines_append {row : List Char} (inside : '\n' ∉ row) (rest : List Char) :
    textLines (row ++ '\n' :: rest) = (row ++ ['\n']) :: textLines rest := by
  have bytes : Text.Utf8.encode (row ++ '\n' :: rest) =
      Text.Utf8.encode row ++ 10 :: Text.Utf8.encode rest := Text.Utf8.encode_append ..
  have line : Text.Utf8.encode row ++ [10] = Text.Utf8.encode (row ++ ['\n']) := by
    rw [Text.Utf8.encode_append]
    rfl
  rw [textLines, bytes,
    fileLines_append (fun h => inside (Text.Utf8.lineFeed_mem_of_mem_encode h)), List.map_cons, line,
    Text.Utf8.decode_encode]
  rfl

/-! ### The entries in a text -/

/-- The rows of an entry, each with its line feed. -/
def rowsOf (line : String) : List (List Char) :=
  (Text.pieces '\n' line.toList).map (· ++ ['\n'])

theorem flatten_rows {rows : List (List Char)} (some : rows ≠ []) :
    (rows.map (· ++ ['\n'])).flatten = ['\n'].intercalate rows ++ ['\n'] := by
  induction rows with
  | nil => exact absurd rfl some
  | cons row rows ih =>
      cases rows with
      | nil => simp
      | cons second rows =>
          rw [List.map_cons, List.flatten_cons, ih (List.cons_ne_nil _ _)]
          simp [List.intercalate]

/-- The rows of an entry make that entry. -/
theorem entryOf_rowsOf (line : String) : entryOf (rowsOf line) = [line] := by
  have some := Text.pieces_ne_nil '\n' line.toList
  have rows : (rowsOf line).isEmpty = false := by simpa [rowsOf] using some
  rw [entryOf, rows, if_neg Bool.false_ne_true, rowsOf, flatten_rows some, List.dropLast_concat,
    Text.intercalate_pieces, String.ofList_toList]

theorem textLines_rows {rows : List (List Char)} (inside : ∀ row ∈ rows, '\n' ∉ row)
    (rest : List Char) :
    textLines (rows.flatMap (fun row => '+' :: row ++ ['\n']) ++ rest) =
      (rows.map (· ++ ['\n'])).map (fun row => '+' :: row) ++ textLines rest := by
  induction rows with
  | nil => rfl
  | cons row rows ih =>
      have first : '\n' ∉ '+' :: row := fun h =>
        (List.mem_cons.mp h).elim (by decide) (inside row (List.mem_cons_self ..))
      rw [List.flatMap_cons, List.append_assoc, List.append_assoc, List.singleton_append,
        textLines_append first, ih fun other h => inside other (List.mem_cons_of_mem _ h)]
      rfl

/-- A line that is no row ends the entry before it. -/
theorem readEntries_of_head {c : Char} (other : c ≠ '+') (rows : List (List Char))
    (line : List Char) (lines : List (List Char)) :
    readEntries rows ((c :: line) :: lines) = entryOf rows ++ readEntries [] lines := by
  rw [readEntries]
  exact fun row h => other (List.cons.inj h).1

theorem readEntries_rows (rows others : List (List Char)) (lines : List (List Char)) :
    readEntries others (rows.map (fun row => '+' :: row) ++ lines) =
      readEntries (others ++ rows) lines := by
  induction rows generalizing others with
  | nil => rw [List.append_nil]; rfl
  | cons row rows ih =>
      rw [List.map_cons, List.cons_append, readEntries, ih, List.append_assoc]
      rfl

/-- What is written for a line ends the entry before it, and is read as that line. -/
theorem readEntries_written (rows : List (List Char)) {time : String} (inside : '\n' ∉ time.toList)
    (line : String) (rest : List Char) :
    readEntries rows (textLines (written time line ++ rest)) =
      entryOf rows ++ readEntries (rowsOf line) (textLines rest) := by
  have comment : '\n' ∉ '#' :: ' ' :: time.toList := by simpa using inside
  have lines : textLines (written time line ++ rest) = ['\n'] ::
      ('#' :: (' ' :: time.toList ++ ['\n'])) ::
        ((rowsOf line).map (fun row => '+' :: row) ++ textLines rest) := by
    have first := @textLines_append [] (by simp) (('#' :: ' ' :: time.toList) ++ '\n' ::
      ((Text.pieces '\n' line.toList).flatMap (fun row => '+' :: row ++ ['\n']) ++ rest))
    rw [textLines_append comment,
      textLines_rows fun row member => Text.not_mem_of_mem_pieces member] at first
    simpa [written, rowsOf] using first
  rw [lines, readEntries_of_head (by decide), readEntries_of_head (by decide), readEntries_rows]
  rfl

/-- The entries in a file are the lines that have been written to it. -/
theorem readEntries_flatMap_written (rows : List (List Char)) {entries : List (String × String)}
    (inside : ∀ e ∈ entries, '\n' ∉ e.1.toList) :
    readEntries rows (textLines (entries.flatMap fun e => written e.1 e.2)) =
      entryOf rows ++ entries.map Prod.snd := by
  induction entries generalizing rows with
  | nil => rw [List.map_nil, List.append_nil]; rfl
  | cons e entries ih =>
      rw [List.flatMap_cons, readEntries_written rows (inside e (List.mem_cons_self ..)),
        ih _ fun other h => inside other (List.mem_cons_of_mem _ h), entryOf_rowsOf]
      rfl

theorem ofBytes_written {entries : List (String × String)}
    (inside : ∀ e ∈ entries, '\n' ∉ e.1.toList) :
    ofBytes (Text.Utf8.encode (entries.flatMap fun e => written e.1 e.2)) =
      entries.map Prod.snd :=
  readEntries_flatMap_written [] inside

end Edit.History

end LineShell
