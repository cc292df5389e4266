import LineShell.Text.Blank

/-!
The line under edit: a text and a point in it, counted in characters. Every operation keeps the
point inside the text. Moves to the left and to the right stay within the present row of a text
that holds line feeds.
-/

namespace LineShell.Edit

/-- The point of an empty line is in it. -/
theorem Line.zero_le_length_nil : 0 ≤ ([] : List Char).length := Nat.le_refl 0

/-- A text with an insertion point. -/
structure Line where
  text : List Char := []
  point : Nat := 0
  point_le : point ≤ text.length := by exact Line.zero_le_length_nil
  deriving DecidableEq, Repr

namespace Line

instance : Inhabited Line := ⟨{}⟩

def before (l : Line) : List Char := l.text.take l.point

def after (l : Line) : List Char := l.text.drop l.point

/-- The line that has `left` before the point and `right` behind it. -/
def ofParts (left right : List Char) : Line :=
  ⟨left ++ right, left.length, by simp⟩

@[simp] theorem before_append_after (l : Line) : l.before ++ l.after = l.text :=
  List.take_append_drop l.point l.text

@[simp] theorem length_before (l : Line) : l.before.length = l.point := by
  simp [before, Nat.min_eq_left l.point_le]

@[simp] theorem before_ofParts (left right : List Char) : (ofParts left right).before = left := by
  simp [before, ofParts]

@[simp] theorem after_ofParts (left right : List Char) : (ofParts left right).after = right := by
  simp [after, ofParts]

theorem ofParts_before_after (l : Line) : ofParts l.before l.after = l := by
  cases l with
  | mk text point point_le => simp [ofParts, before, after, Nat.min_eq_left point_le]

theorem ext_parts {l m : Line} (hb : l.before = m.before) (ha : l.after = m.after) : l = m := by
  rw [← ofParts_before_after l, ← ofParts_before_after m, hb, ha]

def ofText (s : List Char) : Line :=
  ofParts s []

/-- Puts the point as near to `n` as the text allows. -/
def moveTo (l : Line) (n : Int) : Line :=
  ⟨l.text, min n.toNat l.text.length, by omega⟩

@[simp] theorem before_moveTo (l : Line) (n : Int) :
    (l.moveTo n).before = l.text.take n.toNat := by
  simp [before, moveTo, List.take_eq_take_iff]

@[simp] theorem after_moveTo (l : Line) (n : Int) :
    (l.moveTo n).after = l.text.drop n.toNat := by
  simp only [after, moveTo]
  rcases Nat.le_total n.toNat l.text.length with h | h
  · rw [Nat.min_eq_left h]
  · rw [Nat.min_eq_right h, List.drop_length, List.drop_eq_nil_of_le h]

def insert (l : Line) (s : List Char) : Line :=
  ofParts (l.before ++ s) l.after

@[simp] theorem before_insert (l : Line) (s : List Char) :
    (l.insert s).before = l.before ++ s := by
  simp [insert]

@[simp] theorem after_insert (l : Line) (s : List Char) : (l.insert s).after = l.after := by
  simp [insert]

/-- Deletes `n` characters before the point. Where there are fewer, the text is cut at an offset
below zero; but nothing is deleted at its start. -/
def deleteBefore (l : Line) (n : Nat) : Line :=
  if l.point = 0 then l
  else
    let left := Text.sliceTo l.text ((l.point : Int) - n)
    ⟨left ++ l.after, min l.point left.length, by rw [List.length_append]; omega⟩

theorem deleteBefore_of_le {l : Line} {n : Nat} (h : n ≤ l.point) :
    l.deleteBefore n = ofParts (l.before.take (l.point - n)) l.after := by
  unfold deleteBefore
  split
  · rename_i start
    have none : l.before = [] := List.length_eq_zero_iff.1 (l.length_before.trans start)
    rw [none, List.take_nil, ← none, ofParts_before_after]
  · have offset : (l.point : Int) - n = (l.point - n : Nat) := by omega
    have left : Text.sliceTo l.text ((l.point : Int) - n) = l.before.take (l.point - n) := by
      rw [offset, Text.sliceTo, if_pos (Int.natCast_nonneg _), Int.toNat_natCast, before,
        List.take_take, Nat.min_eq_left (Nat.sub_le ..)]
    have shorter : (l.before.take (l.point - n)).length ≤ l.point := by
      rw [List.length_take]
      omega
    simp only [left, Nat.min_eq_right shorter]
    rfl

/-- Deletes up to `n` characters from the point on. -/
def deleteAfter (l : Line) (n : Nat) : Line :=
  ofParts l.before (l.after.drop n)

@[simp] theorem before_deleteAfter (l : Line) (n : Nat) :
    (l.deleteAfter n).before = l.before := by
  simp [deleteAfter]

@[simp] theorem after_deleteAfter (l : Line) (n : Nat) :
    (l.deleteAfter n).after = l.after.drop n := by
  simp [deleteAfter]

/-- One character to the left, unless the point is at the start of its row. -/
def moveLeft (l : Line) : Line :=
  match l.before.getLast? with
  | none => l
  | some c => if c = '\n' then l else l.moveTo (l.point - 1 : Nat)

/-- In a text without line feeds the left move takes the last character before the point away from
there. -/
theorem before_moveLeft (l : Line) (h : '\n' ∉ l.text) :
    l.moveLeft.before = l.before.dropLast := by
  unfold moveLeft
  cases hc : l.before.getLast? with
  | none => simp_all
  | some c =>
    have hm : c ∈ l.text := by
      rw [← before_append_after l]
      exact List.mem_append_left _ (List.mem_of_getLast? hc)
    have hne : c ≠ '\n' := fun e => h (e ▸ hm)
    simp only [hne, if_false, before_moveTo]
    rw [List.dropLast_eq_take, length_before, before, List.take_take]
    simp

/-- One character to the right, unless the point is at the end of its row. -/
def moveRight (l : Line) : Line :=
  match l.after with
  | [] => l
  | c :: _ => if c = '\n' then l else l.moveTo (l.point + 1 : Nat)

theorem text_moveLeft (l : Line) : l.moveLeft.text = l.text := by
  unfold moveLeft
  split
  · rfl
  · split <;> rfl

theorem text_moveRight (l : Line) : l.moveRight.text = l.text := by
  unfold moveRight
  split
  · rfl
  · split <;> rfl

def moveHome (l : Line) : Line := l.moveTo 0

def moveEnd (l : Line) : Line := l.moveTo l.text.length

def killAfter (l : Line) : Line := l.deleteAfter l.after.length

theorem killAfter_eq (l : Line) : l.killAfter = ofParts l.before [] := by
  rw [killAfter, deleteAfter, List.drop_length]

def killBefore (l : Line) : Line := l.deleteBefore l.point

theorem killBefore_eq (l : Line) : l.killBefore = ofParts [] l.after := by
  rw [killBefore, deleteBefore_of_le (Nat.le_refl _), Nat.sub_self, List.take_zero]

/-- How far before the point the last word that begins there begins. -/
def lastWord (l : Line) : Option Nat :=
  let blanks := l.before.reverse.takeWhile Text.isBlank
  let word := (l.before.reverse.drop blanks.length).takeWhile (!Text.isBlank ·)
  if word.isEmpty then none else some (blanks.length + word.length)

/-- Deletes the word before the point, with the white space behind it. -/
def killWord (l : Line) : Line :=
  let n := l.lastWord.getD l.point
  if n = 0 then l else l.deleteBefore n

theorem killWord_eq (l : Line) : l.killWord =
    ofParts (Text.dropRight (!Text.isBlank ·) (Text.dropRight Text.isBlank l.before)) l.after := by
  have length : l.before.reverse.length = l.point := by simp
  have cut : ∀ n ≤ l.point, l.deleteBefore n = ofParts (l.before.reverse.drop n).reverse l.after := by
    intro n inside
    rw [deleteBefore_of_le inside, List.reverse_drop, List.reverse_reverse, length]
  have deleted : l.killWord = l.deleteBefore (l.lastWord.getD l.point) := by
    simp only [killWord]
    split
    · rename_i none
      rw [none, cut 0 (Nat.zero_le _), List.drop_zero, List.reverse_reverse, ofParts_before_after]
    · rfl
  rw [deleted, lastWord]
  simp only [Text.drop_length_takeWhile, Text.dropRight, List.reverse_reverse]
  have parts := congrArg List.length
    (List.takeWhile_append_dropWhile (p := Text.isBlank) (l := l.before.reverse))
  rw [List.length_append, length] at parts
  split
  · rename_i empty
    -- Behind the white space stands no word, so nothing stands there.
    have nothing : l.before.reverse.dropWhile Text.isBlank = [] := by
      have first := List.head?_dropWhile_not Text.isBlank l.before.reverse
      cases rest : l.before.reverse.dropWhile Text.isBlank with
      | nil => rfl
      | cons c rest' =>
          rw [rest] at first empty
          simp only [List.head?_cons] at first
          simp [first] at empty
    rw [Option.getD_none, cut _ (Nat.le_refl _), ← length, List.drop_length, nothing]
    rfl
  · rw [Option.getD_some, cut, ← List.drop_drop, Text.drop_length_takeWhile,
      Text.drop_length_takeWhile]
    have word := (List.takeWhile_prefix (!Text.isBlank ·)
      (l := l.before.reverse.dropWhile Text.isBlank)).length_le
    omega

/-- The number of characters from the point to the end. -/
def back (l : Line) : Nat := l.text.length - l.point

def toString (l : Line) : String := String.ofList l.text

end Line

end LineShell.Edit
