/-!
White space. The class is Unicode's white space together with the four information separators
U+001C to U+001F; the functions below cut it away and split at it.
-/

namespace LineShell.Text

/-- A white-space character: the controls from tab to carriage return, the information separators,
the space, and the spaces and separators beyond ASCII. -/
def isBlank (c : Char) : Bool :=
  let n := c.toNat
  (9 ≤ n && n ≤ 13) || (28 ≤ n && n ≤ 32) || n = 0x85 || n = 0xA0 || n = 0x1680 ||
    (0x2000 ≤ n && n ≤ 0x200A) || n = 0x2028 || n = 0x2029 || n = 0x202F || n = 0x205F || n = 0x3000

/-- Drops the longest suffix whose characters all satisfy `p`. -/
def dropRight (p : Char → Bool) (s : List Char) : List Char :=
  (s.reverse.dropWhile p).reverse

/-- What is behind the longest prefix whose characters all satisfy `p`. -/
theorem drop_length_takeWhile (p : Char → Bool) (s : List Char) :
    s.drop (s.takeWhile p).length = s.dropWhile p :=
  calc s.drop (s.takeWhile p).length
      = (s.takeWhile p ++ s.dropWhile p).drop (s.takeWhile p).length := by
        rw [List.takeWhile_append_dropWhile]
    _ = s.dropWhile p := List.drop_left

def trim (s : List Char) : List Char :=
  dropRight isBlank (s.dropWhile isBlank)

/-- The part of a text before an offset, which counts from the end if negative. -/
def sliceTo (s : List Char) (offset : Int) : List Char :=
  if offset ≥ 0 then s.take offset.toNat else s.take (s.length - offset.natAbs)

/-- The first word of a text, words being separated by white space; empty if there is none. -/
def firstWord (s : List Char) : List Char :=
  (s.dropWhile isBlank).takeWhile fun c => !isBlank c

/-- Fills a text up to `width` characters with spaces on the right. -/
def padRight (width : Nat) (s : String) : String :=
  s ++ String.ofList (List.replicate (width - s.length) ' ')

theorem toList_padRight (width : Nat) (s : String) :
    (padRight width s).toList = s.toList ++ List.replicate (width - s.length) ' ' := by
  simp [padRight]

/-- A text that is too long is not cut. -/
theorem length_padRight (width : Nat) (s : String) :
    (padRight width s).length = max s.length width := by
  rw [← String.length_toList, toList_padRight, List.length_append, List.length_replicate,
    String.length_toList]
  omega

end LineShell.Text
