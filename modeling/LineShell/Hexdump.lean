import LineShell.Chunks
import LineShell.Text.Utf8

/-!
Hex dumps: sixteen bytes a row, each as two hexadecimal digits, and beside them the same bytes as
characters. A row of at most sixteen bytes is 67 columns wide.
-/

namespace LineShell.Hexdump

def rowSize : Nat := 16

/-- The character that stands for a byte: itself if it is printable ASCII, else a dot. -/
def glyph (b : UInt8) : Char :=
  if 0x20 ≤ b.toNat && b.toNat < 0x7F then Char.ofNat b.toNat else '.'

/-- The column group of a byte: a space and two digits. -/
def cell (b : UInt8) : List Char :=
  [' ', Text.Utf8.hexDigit (b.toNat / 16), Text.Utf8.hexDigit (b.toNat % 16)]

/-- Fills up to `width` characters with spaces on the right. -/
def pad (width : Nat) (s : List Char) : List Char :=
  s ++ List.replicate (width - s.length) ' '

/-- One row: the digit groups and the characters, each half filled up to its full width. -/
def row (chunk : List UInt8) : List Char :=
  ' ' :: pad (rowSize * 3) (chunk.flatMap cell) ++ [' ', ' '] ++ pad rowSize (chunk.map glyph)

/-- A row is 67 columns wide, however many bytes it holds. -/
theorem length_row {chunk : List UInt8} (h : chunk.length ≤ rowSize) :
    (row chunk).length = 67 := by
  have hc : (chunk.flatMap cell).length = 3 * chunk.length := by
    induction chunk with
    | nil => rfl
    | cons b rest ih =>
      have hr : rest.length ≤ rowSize := Nat.le_of_succ_le h
      simp only [List.flatMap_cons, List.length_append, ih hr, cell, List.length_cons,
        List.length_nil]
      omega
  simp only [rowSize] at h
  simp only [row, pad, rowSize, List.length_append, List.length_cons, List.length_nil,
    List.length_replicate, List.length_map, hc]
  omega

def rows (bytes : List UInt8) : List (List Char) :=
  (chunks rowSize bytes).map row

def lines (bytes : List UInt8) : List String :=
  (rows bytes).map String.ofList

end LineShell.Hexdump
