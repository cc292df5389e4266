/-!
Cutting a list into pieces of one size. The pieces together are the list, and only the last one may
be shorter than the others.
-/

namespace LineShell

/-- Cuts a list into pieces of `size` items, the last one possibly shorter. A size of zero counts as
one. -/
def chunks {α : Type} (size : Nat) (items : List α) : List (List α) :=
  match items with
  | [] => []
  | item :: rest => (item :: rest.take (size - 1)) :: chunks size (rest.drop (size - 1))
  termination_by items.length
  decreasing_by simp only [List.length_drop, List.length_cons]; omega

/-- The pieces together are the list. -/
theorem flatten_chunks {α : Type} (size : Nat) (items : List α) :
    (chunks size items).flatten = items := by
  fun_induction chunks size items with
  | case1 => rfl
  | case2 item rest ih => simp [ih]

/-- No piece is empty, and none is larger than the size. -/
theorem length_of_mem_chunks {α : Type} {size : Nat} {items piece : List α} (hs : 0 < size)
    (h : piece ∈ chunks size items) : 0 < piece.length ∧ piece.length ≤ size := by
  fun_induction chunks size items with
  | case1 => cases h
  | case2 item rest ih =>
    rcases List.mem_cons.1 h with rfl | h
    · rw [List.length_cons, List.length_take]
      omega
    · exact ih h

/-- As many pieces as it takes to hold the list. -/
theorem length_chunks {α : Type} {size : Nat} (hs : 0 < size) (items : List α) :
    (chunks size items).length = (items.length + size - 1) / size := by
  have last : (size - 1) / size = 0 := Nat.div_eq_of_lt (Nat.sub_lt hs Nat.zero_lt_one)
  fun_induction chunks size items with
  | case1 => simp [last]
  | case2 item rest ih =>
    rw [List.length_cons, ih, List.length_drop, List.length_cons,
      show rest.length + 1 + size - 1 = rest.length + size by omega, Nat.add_div_right _ hs]
    rcases Nat.lt_or_ge rest.length size with few | many
    · rw [Nat.div_eq_of_lt few, show rest.length - (size - 1) + size - 1 = size - 1 by omega, last]
    · rw [show rest.length - (size - 1) + size - 1 = rest.length by omega]

/-- The piece at a place holds the items from there on. -/
theorem eq_of_getElem?_chunks {α : Type} {size k : Nat} {items piece : List α} (hs : 0 < size)
    (h : (chunks size items)[k]? = some piece) : piece = (items.drop (size * k)).take size := by
  cases size with
  | zero => cases hs
  | succ n =>
    fun_induction chunks (n + 1) items generalizing k with
    | case1 => cases h
    | case2 item rest ih =>
      cases k with
      | zero =>
        cases h
        rfl
      | succ k =>
        rw [ih h, List.drop_drop, Nat.mul_succ, ← Nat.add_assoc, List.drop_succ_cons,
          Nat.add_sub_cancel, Nat.add_comm _ n]

/-- A piece of full size at the front is cut off as it is. -/
theorem chunks_append {α : Type} {size : Nat} {piece rest : List α} (hs : 0 < size)
    (full : piece.length = size) : chunks size (piece ++ rest) = piece :: chunks size rest := by
  cases piece with
  | nil =>
    rw [List.length_nil] at full
    omega
  | cons item others =>
    have cut : others.length = size - 1 := by
      rw [List.length_cons] at full
      omega
    rw [List.cons_append, chunks, List.take_left' cut, List.drop_left' cut]

theorem chunks_of_length_le {α : Type} {size : Nat} {items : List α} (nonempty : items ≠ [])
    (few : items.length ≤ size) : chunks size items = [items] := by
  cases items with
  | nil => exact absurd rfl nonempty
  | cons item rest =>
    rw [List.length_cons] at few
    rw [chunks, List.take_of_length_le (by omega), List.drop_eq_nil_of_le (by omega), chunks]

/-- All pieces but the last one are of full size. -/
theorem length_of_getElem?_chunks {α : Type} {size k : Nat} {items piece : List α} (hs : 0 < size)
    (h : (chunks size items)[k]? = some piece) (more : k + 1 < (chunks size items).length) :
    piece.length = size := by
  fun_induction chunks size items generalizing k with
  | case1 => cases h
  | case2 item rest ih =>
    rw [List.length_cons] at more
    cases k with
    | zero =>
      -- Another piece follows, so that the items do not end in this one.
      have left : rest.drop (size - 1) ≠ [] := by
        intro none
        rw [none, chunks] at more
        simp at more
      have many : size - 1 < rest.length := by simpa using left
      obtain rfl : item :: rest.take (size - 1) = piece := by simpa using h
      rw [List.length_cons, List.length_take]
      omega
    | succ k => exact ih (by simpa using h) (by omega)

end LineShell
