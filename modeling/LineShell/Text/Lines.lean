/-!
Lines of a text, as every line boundary of Unicode ends them. The result holds no boundary, and a
boundary at the end of the text opens no further line.
-/

namespace LineShell.Text

/-- A character that ends a line by itself. -/
def isLineBreak (c : Char) : Bool :=
  let n := c.toNat
  (10 ≤ n && n ≤ 13) || (28 ≤ n && n ≤ 30) || n = 0x85 || n = 0x2028 || n = 0x2029

/-- Cuts a text into lines, `current` being the part of the present line already read, last
character first. A carriage return takes a line feed behind it along. -/
def cutLines (current : List Char) : List Char → List (List Char)
  | [] => if current.isEmpty then [] else [current.reverse]
  | '\r' :: '\n' :: rest => current.reverse :: cutLines [] rest
  | c :: rest =>
    if isLineBreak c then current.reverse :: cutLines [] rest else cutLines (c :: current) rest

def lines (s : List Char) : List (List Char) :=
  cutLines [] s

/-- Every line end is written as a line feed: carriage return, alone or before a line feed. -/
def unifyNewlines : List Char → List Char
  | [] => []
  | '\r' :: '\n' :: rest => '\n' :: unifyNewlines rest
  | '\r' :: rest => '\n' :: unifyNewlines rest
  | c :: rest => c :: unifyNewlines rest

/-- The pieces of a list between the occurrences of `sep`; never empty. -/
def pieces (sep : Char) : List Char → List (List Char)
  | [] => [[]]
  | c :: rest =>
    if c = sep then [] :: pieces sep rest
    else match pieces sep rest with
      | [] => [[c]]
      | piece :: others => (c :: piece) :: others

theorem pieces_ne_nil (sep : Char) (s : List Char) : pieces sep s ≠ [] := by
  fun_induction pieces sep s <;> simp

/-- Nothing is lost between the pieces but the separators. -/
theorem intercalate_pieces (sep : Char) (s : List Char) :
    [sep].intercalate (pieces sep s) = s := by
  fun_induction pieces sep s with
  | case1 => rfl
  | case2 rest ih =>
    cases h : pieces sep rest with
    | nil => exact absurd h (pieces_ne_nil sep rest)
    | cons piece others => simp_all [List.intercalate]
  | case3 c rest hc h ih => exact absurd h (pieces_ne_nil sep rest)
  | case4 c rest hc piece others h ih =>
    rw [h] at ih
    cases others <;> simp_all [List.intercalate]

/-- No piece holds the separator. -/
theorem not_mem_of_mem_pieces {sep : Char} {s piece : List Char} (h : piece ∈ pieces sep s) :
    sep ∉ piece := by
  fun_induction pieces sep s generalizing piece with
  | case1 => simp_all
  | case2 rest ih =>
    rcases List.mem_cons.1 h with rfl | h
    · simp
    · exact ih h
  | case3 c rest hc h' ih => exact absurd h' (pieces_ne_nil sep rest)
  | case4 c rest hc first others h' ih =>
    rw [h'] at ih
    rcases List.mem_cons.1 h with rfl | h
    · have hfirst := ih (List.mem_cons_self ..)
      simp [hfirst, Ne.symm hc]
    · exact ih (List.mem_cons_of_mem _ h)

end LineShell.Text
