import LineShell.Hexdump
import LineShell.Text.Numeral

/-!
# Reading dumps back

A dump shows each byte twice: by two digits in a group of columns of its own, and by a character.
Both places follow from the place of the byte alone, so the rows are laid out alike, and only behind
the last byte is anything blank.
-/

namespace LineShell.Hexdump

/-- The columns of a row that hold the two digits of one byte. -/
def group (row : String) (i : Nat) : List Char := (row.toList.drop (3 * i + 2)).take 2

def blank : List Char := [' ', ' ']

def groups (rows : List String) : List (List Char) :=
  rows.flatMap fun row => (List.range rowSize).map (group row)

/-- The byte that two digits write. -/
def byte? : List Char → Option UInt8
  | [high, low] => do
    let high ← Text.digitIn? 16 high
    let low ← Text.digitIn? 16 low
    return .ofNat (16 * high + low)
  | _ => none

/-- Reads rows back, up to the first blank group. There are no bytes where another group is none. -/
def read? (rows : List String) : Option (List UInt8) :=
  ((groups rows).takeWhile (· ≠ blank)).mapM byte?

/-! ### Digits -/

def digits (b : UInt8) : List Char :=
  [Text.Utf8.hexDigit (b.toNat / 16), Text.Utf8.hexDigit (b.toNat % 16)]

theorem digitIn?_hexDigit {n : Nat} (h : n < 16) :
    Text.digitIn? 16 (Text.Utf8.hexDigit n) = some n ∧ Text.Utf8.hexDigit n ≠ ' ' := by
  revert n
  decide

theorem byte?_digits (b : UInt8) : byte? (digits b) = some b := by
  have small := b.toNat_lt
  have high := (digitIn?_hexDigit (n := b.toNat / 16) (by omega)).1
  have low := (digitIn?_hexDigit (n := b.toNat % 16) (by omega)).1
  simp only [byte?, digits, high, low, Option.bind_eq_bind, Option.bind_some, Option.pure_def,
    Nat.div_add_mod, UInt8.ofNat_toNat]

theorem digits_ne_blank (b : UInt8) : digits b ≠ blank := by
  have small := b.toNat_lt
  have high := (digitIn?_hexDigit (n := b.toNat / 16) (by omega)).2
  simp [digits, blank, high]

/-! ### Columns of a row -/

theorem getElem?_pad {width k : Nat} {s : List Char} (inside : k < width) :
    (pad width s)[k]? = some (s[k]?.getD ' ') := by
  rw [pad, List.getElem?_append]
  split
  · rename_i held
    rw [List.getElem?_eq_getElem held, Option.getD_some]
  · rename_i past
    have filled : k - s.length < width - s.length := by omega
    rw [List.getElem?_replicate_of_lt filled, List.getElem?_eq_none (Nat.le_of_not_lt past)]
    rfl

theorem length_flatMap_cell (chunk : List UInt8) :
    (chunk.flatMap cell).length = 3 * chunk.length := by
  induction chunk with
  | nil => rfl
  | cons b rest ih =>
    rw [List.flatMap_cons, List.length_append, ih, List.length_cons]
    simp only [cell, List.length_cons, List.length_nil]
    omega

/-- The characters of a byte stand in the three columns that belong to it. -/
theorem getElem?_flatMap_cell (chunk : List UInt8) (i : Nat) {j : Nat} (inside : j < 3) :
    (chunk.flatMap cell)[3 * i + j]? = chunk[i]?.bind fun b => (cell b)[j]? := by
  induction chunk generalizing i with
  | nil => rfl
  | cons b rest ih =>
    rw [List.flatMap_cons]
    have wide : (cell b).length = 3 := rfl
    cases i with
    | zero => rw [List.getElem?_append_left (by omega), Nat.mul_zero, Nat.zero_add]; rfl
    | succ i =>
      rw [List.getElem?_append_right (by omega), wide,
        show 3 * (i + 1) + j - 3 = 3 * i + j by omega, ih, List.getElem?_cons_succ]

variable {chunk : List UInt8} {i : Nat}

theorem getElem?_row (inside : i < rowSize) {j : Nat} (apart : j < 3) :
    (row chunk)[3 * i + j + 1]? = some ((chunk[i]?.bind fun b => (cell b)[j]?).getD ' ') := by
  have bound : 3 * i + j < rowSize * 3 := by omega
  have wide : 3 * i + j < (pad (rowSize * 3) (chunk.flatMap cell)).length := by
    rw [pad, List.length_append, List.length_replicate]
    omega
  rw [row, List.append_assoc, List.cons_append, List.getElem?_cons_succ,
    List.getElem?_append_left wide, getElem?_pad bound, getElem?_flatMap_cell chunk i apart]

theorem getElem?_row_glyph (few : chunk.length ≤ rowSize) (inside : i < rowSize) :
    (row chunk)[51 + i]? = some ((chunk[i]?.map glyph).getD ' ') := by
  have wide : (' ' :: pad (rowSize * 3) (chunk.flatMap cell) ++ [' ', ' ']).length = 51 := by
    simp only [rowSize] at few
    simp only [pad, rowSize, List.length_append, List.length_cons, List.length_nil,
      List.length_replicate, length_flatMap_cell]
    omega
  rw [row, List.getElem?_append_right (by omega), wide, Nat.add_sub_cancel_left,
    getElem?_pad inside, List.getElem?_map]

/-- A group of a row holds the digits of its byte. -/
theorem group_row (inside : i < rowSize) :
    group (String.ofList (row chunk)) i = (chunk[i]?.map digits).getD blank := by
  have column (j : Nat) (apart : j < 3) : (row chunk)[3 * i + j + 1]? =
      some ((chunk[i]?.bind fun b => (cell b)[j]?).getD ' ') := getElem?_row inside apart
  obtain ⟨high, first⟩ := List.getElem?_eq_some_iff.1 (column 1 (by decide))
  obtain ⟨low, second⟩ := List.getElem?_eq_some_iff.1 (column 2 (by decide))
  rw [group, String.toList_ofList, List.drop_eq_getElem_cons high, List.drop_eq_getElem_cons low,
    first, second]
  cases chunk[i]? <;> rfl

/-! ### Rows of a dump -/

theorem map_group_row (few : chunk.length ≤ rowSize) :
    (List.range rowSize).map (group (String.ofList (row chunk))) =
      chunk.map digits ++ List.replicate (rowSize - chunk.length) blank := by
  have long : (chunk.map digits ++ List.replicate (rowSize - chunk.length) blank).length =
      rowSize := by
    rw [List.length_append, List.length_map, List.length_replicate]
    omega
  refine List.ext_getElem (by rw [long, List.length_map, List.length_range]) fun i h h' => ?_
  rw [long] at h'
  rw [List.getElem_map, List.getElem_range, group_row h', List.getElem_append]
  split
  · rename_i held
    rw [List.length_map] at held
    rw [List.getElem?_eq_getElem held, List.getElem_map]
    rfl
  · rename_i past
    rw [List.length_map] at past
    rw [List.getElem?_eq_none (Nat.le_of_not_lt past), List.getElem_replicate]
    rfl

/-- The groups of a dump are the digits of the bytes, and blank behind them. -/
theorem groups_lines (bytes : List UInt8) :
    ∃ n, groups (lines bytes) = bytes.map digits ++ List.replicate n blank := by
  have few : ∀ c ∈ chunks rowSize bytes, c.length ≤ rowSize := fun c member =>
    (length_of_mem_chunks (by decide) member).2
  rw [groups, lines, rows, List.map_map, List.flatMap_map]
  fun_induction chunks rowSize bytes with
  | case1 => exact ⟨0, rfl⟩
  | case2 b rest ih =>
    obtain ⟨first, others⟩ := List.forall_mem_cons.1 few
    obtain ⟨n, ih⟩ := ih others
    rw [List.flatMap_cons, ih]
    simp only [Function.comp_apply]
    rw [map_group_row first, List.map_cons, List.map_take, List.map_cons, List.map_drop]
    rcases Nat.lt_or_ge rest.length (rowSize - 1) with short | long
    · -- The bytes end in this row.
      rw [List.drop_eq_nil_of_le (by rw [List.length_map]; omega), List.nil_append,
        List.append_assoc, List.replicate_append_replicate,
        List.take_of_length_le (by rw [List.length_map]; omega)]
      exact ⟨_, rfl⟩
    · have full : rowSize - (b :: List.take (rowSize - 1) rest).length = 0 := by
        rw [List.length_cons, List.length_take]
        omega
      rw [full, List.replicate_zero, List.append_nil, ← List.append_assoc, List.cons_append,
        List.take_append_drop]
      exact ⟨n, rfl⟩

theorem mapM_byte?_digits (bytes : List UInt8) : (bytes.map digits).mapM byte? = some bytes := by
  induction bytes with
  | nil => rfl
  | cons b bytes ih => simp [byte?_digits, ih]

theorem read?_lines (bytes : List UInt8) : read? (lines bytes) = some bytes := by
  obtain ⟨n, groups⟩ := groups_lines bytes
  have held : ∀ g ∈ bytes.map digits, decide (g ≠ blank) = true := by
    simp [digits_ne_blank]
  have stop : (List.replicate n blank).takeWhile (· ≠ blank) = [] := by
    cases n <;> rfl
  rw [read?, groups, List.takeWhile_append_of_pos held, stop, List.append_nil,
    mapM_byte?_digits]

/-- What a dump of some bytes looks like. -/
structure DumpLaw (bytes : List UInt8) : Prop where
  /-- There is a row for every sixteen bytes, and for those that are left over. -/
  count : (lines bytes).length = (bytes.length + 15) / 16
  wide : ∀ row ∈ lines bytes, row.length = 67
  /-- The groups of the rows, read up to the first blank one, are the bytes. -/
  read : read? (lines bytes) = some bytes
  /-- Only the last row has blank groups, -/
  full : ∀ k row, (lines bytes)[k]? = some row → k + 1 < (lines bytes).length →
    ∀ i < 16, group row i ≠ blank
  /-- and at its end. -/
  ending : ∀ row ∈ lines bytes, ∀ i j, i ≤ j → j < 16 → group row i = blank → group row j = blank
  /-- Beside its group a byte is shown by its character, or by a dot if that is not printable. -/
  shown : ∀ k row, (lines bytes)[k]? = some row → ∀ i < 16, row.toList[51 + i]? =
    some (match bytes[16 * k + i]? with
      | some b => if 0x20 ≤ b.toNat ∧ b.toNat < 0x7F then Char.ofNat b.toNat else '.'
      | none => ' ')

theorem exists_of_getElem?_lines {bytes : List UInt8} {k : Nat} {text : String}
    (h : (lines bytes)[k]? = some text) : ∃ chunk, text = String.ofList (row chunk) ∧
      chunk.length ≤ rowSize ∧ ∀ i < rowSize, chunk[i]? = bytes[rowSize * k + i]? := by
  rw [lines, rows, List.map_map, List.getElem?_map, Option.map_eq_some_iff] at h
  obtain ⟨chunk, cut, rfl⟩ := h
  have few := (length_of_mem_chunks (by decide) (List.mem_of_getElem? cut)).2
  refine ⟨chunk, rfl, few, fun i inside => ?_⟩
  rw [eq_of_getElem?_chunks (by decide) cut, List.getElem?_take_of_lt inside, List.getElem?_drop]

theorem group_eq_blank_iff {bytes : List UInt8} {k i : Nat} {text : String}
    (h : (lines bytes)[k]? = some text) (inside : i < rowSize) :
    group text i = blank ↔ bytes.length ≤ rowSize * k + i := by
  obtain ⟨chunk, rfl, -, held⟩ := exists_of_getElem?_lines h
  rw [group_row inside, held i inside, ← List.getElem?_eq_none_iff]
  cases bytes[rowSize * k + i]? with
  | none => simp
  | some b => simp [digits_ne_blank]

theorem length_lines (bytes : List UInt8) : (lines bytes).length = (bytes.length + 15) / 16 := by
  rw [lines, rows, List.length_map, List.length_map, length_chunks (by decide)]
  rfl

/-- Every byte sequence can be read back from its dump, whose rows are laid out alike. -/
theorem dumpLaw (bytes : List UInt8) : DumpLaw bytes where
  count := length_lines bytes
  wide := by
    intro text member
    obtain ⟨k, h⟩ := List.mem_iff_getElem?.1 member
    obtain ⟨chunk, rfl, few, -⟩ := exists_of_getElem?_lines h
    rw [String.length_ofList, length_row few]
  read := read?_lines bytes
  full := by
    intro k text h more i inside
    rw [Ne, group_eq_blank_iff h inside, rowSize]
    rw [length_lines] at more
    omega
  ending := by
    intro text member i j behind inside
    obtain ⟨k, h⟩ := List.mem_iff_getElem?.1 member
    rw [group_eq_blank_iff h inside, group_eq_blank_iff h (Nat.lt_of_le_of_lt behind inside)]
    omega
  shown := by
    intro k text h i inside
    obtain ⟨chunk, rfl, few, held⟩ := exists_of_getElem?_lines h
    rw [String.toList_ofList, getElem?_row_glyph few inside, held i inside, rowSize]
    cases bytes[16 * k + i]? with
    | none => rfl
    | some b => simp [glyph]

end LineShell.Hexdump
