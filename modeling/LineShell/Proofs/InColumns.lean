import LineShell.Columns
import Mathlib.Data.List.Sort
import Mathlib.Data.String.Basic

/-!
# Reading columns back

An item that does not end in white space can be told from the spaces behind it. So rows of columns
can be cut where the columns begin, and what is cut out is every item, in order.
-/

namespace LineShell.Columns

/-- A text that is not empty and does not end in white space. -/
def IsSolid (item : String) : Prop :=
  ∃ c, item.toList.getLast? = some c ∧ Text.isBlank c = false

instance : DecidablePred IsSolid := fun item =>
  decidable_of_iff (item.toList.getLast?.any fun c => !Text.isBlank c)
    (by simp [IsSolid, Option.any_eq_true])

def cut (column : Nat) (row : String) : List String :=
  (chunks column row.toList).map fun piece => String.ofList (Text.dropRight Text.isBlank piece)

variable {column : Nat} {item : String} {items : List String}

/-! ### A row -/

theorem dropRight_append_spaces {s : List Char} {c : Char} (last : s.getLast? = some c)
    (solid : Text.isBlank c = false) (n : Nat) :
    Text.dropRight Text.isBlank (s ++ List.replicate n ' ') = s := by
  obtain ⟨front, rfl⟩ := List.getLast?_eq_some_iff.1 last
  have spaces : ∀ x ∈ List.replicate n ' ', Text.isBlank x = true := by
    intro x member
    rw [List.eq_of_mem_replicate member]
    decide
  rw [Text.dropRight, List.reverse_append, List.reverse_replicate,
    List.dropWhile_append_of_pos spaces, List.reverse_concat,
    List.dropWhile_cons_of_neg (by simp [solid]), List.reverse_cons, List.reverse_reverse]

theorem dropRight_padRight (solid : IsSolid item) (width : Nat) :
    Text.dropRight Text.isBlank (Text.padRight width item).toList = item.toList := by
  obtain ⟨c, last, solid⟩ := solid
  rw [Text.toList_padRight, dropRight_append_spaces last solid]

theorem toList_row_concat (column : Nat) (front : List String) (solid : IsSolid item) :
    (row column (front ++ [item])).toList =
      front.flatMap (fun item => (Text.padRight column item).toList) ++ item.toList := by
  obtain ⟨c, last, solid⟩ := solid
  have ending : (front.flatMap (fun item => (Text.padRight column item).toList) ++
      item.toList).getLast? = some c := by
    rw [List.getLast?_append, last, Option.some_or]
  rw [row, String.toList_ofList, List.flatMap_append, List.flatMap_singleton, Text.toList_padRight,
    ← List.append_assoc, dropRight_append_spaces ending solid]

theorem toList_row_singleton (solid : IsSolid item) : (row column [item]).toList = item.toList :=
  toList_row_concat column [] solid

/-- Items that others follow are filled up, and the others stand as they would alone. -/
theorem toList_row_append (column : Nat) (front : List String) (nonempty : items ≠ [])
    (solid : ∀ item ∈ items, IsSolid item) : (row column (front ++ items)).toList =
      front.flatMap (fun item => (Text.padRight column item).toList) ++
        (row column items).toList := by
  obtain rfl | ⟨init, last, rfl⟩ := List.eq_nil_or_concat items
  · exact absurd rfl nonempty
  · have ends : IsSolid last := solid last (by simp)
    rw [List.concat_eq_append, ← List.append_assoc, toList_row_concat _ _ ends,
      toList_row_concat _ _ ends, List.flatMap_append, List.append_assoc]

/-- An item that is not too long is filled up to its column. -/
theorem length_padded (fits : item.length ≤ column) :
    (Text.padRight column item).toList.length = column := by
  rw [String.length_toList, Text.length_padRight, max_eq_right fits]

theorem cut_row (solid : ∀ item ∈ items, IsSolid item)
    (fits : ∀ item ∈ items, item.length + 2 ≤ column) : cut column (row column items) = items := by
  induction items with
  | nil => simp [cut, row, Text.dropRight, chunks]
  | cons item rest ih =>
      obtain ⟨first, others⟩ := List.forall_mem_cons.1 solid
      obtain ⟨small, fit⟩ := List.forall_mem_cons.1 fits
      by_cases alone : rest = []
      · obtain ⟨c, last, blank⟩ := first
        have some : item.toList ≠ [] := by
          intro none
          rw [none] at last
          cases last
        have short : item.toList.length ≤ column := by
          rw [String.length_toList]
          omega
        have kept := dropRight_append_spaces last blank 0
        rw [List.replicate_zero, List.append_nil] at kept
        rw [alone, cut, toList_row_singleton ⟨c, last, blank⟩, chunks_of_length_le some short,
          List.map_singleton, kept, String.ofList_toList]
      · have apart := toList_row_append column [item] alone others
        rw [List.singleton_append, List.flatMap_singleton] at apart
        rw [cut, apart, chunks_append (by omega) (length_padded (by omega)), List.map_cons,
          dropRight_padRight first, String.ofList_toList, ← cut, ih others fit]

/-- A row ends two columns before its last item's column does, or earlier. -/
theorem length_row (nonempty : items ≠ []) (solid : ∀ item ∈ items, IsSolid item)
    (fits : ∀ item ∈ items, item.length + 2 ≤ column) :
    (row column items).length + 2 ≤ items.length * column := by
  induction items with
  | nil => exact absurd rfl nonempty
  | cons item rest ih =>
      obtain ⟨first, others⟩ := List.forall_mem_cons.1 solid
      obtain ⟨small, fit⟩ := List.forall_mem_cons.1 fits
      rw [← String.length_toList]
      by_cases alone : rest = []
      · rw [alone, toList_row_singleton first, String.length_toList]
        simpa using small
      · have apart := toList_row_append column [item] alone others
        have behind := ih alone others fit
        rw [List.singleton_append, List.flatMap_singleton] at apart
        rw [apart, List.length_append, length_padded (by omega), String.length_toList,
          List.length_cons, Nat.succ_mul]
        omega

theorem length_flatMap_padRight (fits : ∀ item ∈ items, item.length + 2 ≤ column) :
    (items.flatMap fun item => (Text.padRight column item).toList).length =
      items.length * column := by
  induction items with
  | nil => simp
  | cons item rest ih =>
      obtain ⟨small, fit⟩ := List.forall_mem_cons.1 fits
      rw [List.flatMap_cons, List.length_append, ih fit, length_padded (by omega),
        List.length_cons, Nat.succ_mul, Nat.add_comm]

theorem prefix_row (column : Nat) (solid : ∀ item ∈ items, IsSolid item)
    (first : items[0]? = some item) :
    item.toList <+: (row column items).toList := by
  cases items with
  | nil => cases first
  | cons other rest =>
      obtain ⟨begins, others⟩ := List.forall_mem_cons.1 solid
      obtain rfl : other = item := by simpa using first
      by_cases alone : rest = []
      · simp only [alone, toList_row_singleton begins, List.prefix_rfl]
      · have apart := toList_row_append column [other] alone others
        rw [List.singleton_append, List.flatMap_singleton, Text.toList_padRight] at apart
        rw [apart, List.append_assoc]
        exact List.prefix_append ..

/-- Two neighbours in a row, the first one in its own column, are at least two spaces apart. -/
theorem neighbours_row {i : Nat} {next : String} (solid : ∀ item ∈ items, IsSolid item)
    (fits : ∀ item ∈ items, item.length + 2 ≤ column) (left : items[i]? = some item)
    (right : items[i + 1]? = some next) : ∃ before gap behind,
      (row column items).toList =
        before ++ item.toList ++ List.replicate gap ' ' ++ next.toList ++ behind ∧
      before.length = i * column ∧ 2 ≤ gap := by
  obtain ⟨inside, rfl⟩ := List.getElem?_eq_some_iff.1 left
  obtain ⟨more, here⟩ := List.getElem?_eq_some_iff.1 right
  have parts : items.take i ++ items[i] :: items.drop (i + 1) = items := by
    rw [← List.drop_eq_getElem_cons inside, List.take_append_drop]
  have others : ∀ item ∈ items.drop (i + 1), IsSolid item := fun item member =>
    solid item (List.mem_of_mem_drop member)
  have onward : items.drop (i + 1) ≠ [] := by
    intro none
    have past := List.drop_eq_nil_iff.1 none
    omega
  have begins : (items.drop (i + 1))[0]? = some next := by
    rw [List.getElem?_drop]
    exact right
  obtain ⟨behind, ending⟩ := prefix_row column others begins
  refine ⟨(items.take i).flatMap fun item => (Text.padRight column item).toList,
    column - items[i].length, behind, ?_, ?_, ?_⟩
  · have whole := toList_row_append column (items.take i ++ [items[i]]) onward others
    rw [List.append_assoc, List.singleton_append, parts, List.flatMap_append,
      List.flatMap_singleton, Text.toList_padRight, ← ending] at whole
    rw [whole]
    simp only [List.append_assoc]
  · rw [length_flatMap_padRight fun item member => fits item (List.mem_of_mem_take member),
      List.length_take, Nat.min_eq_left (Nat.le_of_lt inside)]
  · have small := fits items[i] (List.getElem_mem inside)
    omega

/-! ### All rows -/

section Rows

variable {n : Nat}

theorem exists_piece {text : String} (solid : ∀ item ∈ items, IsSolid item)
    (fits : ∀ item ∈ items, item.length + 2 ≤ column) {k : Nat}
    (h : ((chunks n items).map (row column))[k]? = some text) : ∃ piece,
      (chunks n items)[k]? = some piece ∧ piece ⊆ items ∧ text = row column piece ∧
      cut column text = piece := by
  rw [List.getElem?_map, Option.map_eq_some_iff] at h
  obtain ⟨piece, place, rfl⟩ := h
  have inside : piece ⊆ items := fun item member => by
    rw [← flatten_chunks n items]
    exact List.mem_flatten_of_mem (List.mem_of_getElem? place) member
  exact ⟨piece, place, inside, rfl, cut_row (fun item member => solid item (inside member))
    fun item member => fits item (inside member)⟩

theorem flatMap_cut_rows (solid : ∀ item ∈ items, IsSolid item)
    (fits : ∀ item ∈ items, item.length + 2 ≤ column) :
    ((chunks n items).map (row column)).flatMap (cut column) = items := by
  have read : ((chunks n items).map (row column)).map (cut column) = chunks n items := by
    refine List.ext_getElem? fun k => ?_
    rw [List.getElem?_map]
    cases place : ((chunks n items).map (row column))[k]? with
    | none => simpa using place
    | some text =>
        obtain ⟨piece, found, -, -, same⟩ := exists_piece solid fits place
        rw [Option.map_some, same, found]
  rw [List.flatMap_def, read, flatten_chunks]

end Rows

theorem perRow_eq (width column : Int) : (perRow width column : Int) = max 1 (width.fdiv column) :=
  Int.toNat_of_nonneg (le_trans (by decide) (le_max_left ..))

theorem perRow_pos (width column : Int) : 0 < perRow width column := by
  have large := le_max_left 1 (width.fdiv column)
  rw [← perRow_eq] at large
  omega

/-- How rows of columns two wider than `longest` show some items. -/
structure ColumnLaw (items : List String) (longest width : Int) (rows : List String) : Prop where
  /-- What is cut out of the rows is the items, in the order of their code points. -/
  whole : (rows.flatMap (cut (longest + 2).toNat)).Perm items
  sorted : (rows.flatMap (cut (longest + 2).toNat)).Pairwise (· ≤ ·)
  /-- Each row holds as many items as there is room for, at least one; the last may hold fewer. -/
  full : ∀ k row, rows[k]? = some row → k + 1 < rows.length →
    (cut (longest + 2).toNat row).length = max 1 (width.fdiv (longest + 2))
  last : ∀ row ∈ rows, 0 < (cut (longest + 2).toNat row).length ∧
    (cut (longest + 2).toNat row).length ≤ max 1 (width.fdiv (longest + 2))
  /-- Only a row with a single item may be too long. -/
  narrow : ∀ row ∈ rows, (cut (longest + 2).toNat row).length ≠ 1 → row.length ≤ width
  /-- Neighbours are at least two spaces apart, each where its column begins. -/
  apart : ∀ row ∈ rows, ∀ i item next, (cut (longest + 2).toNat row)[i]? = some item →
    (cut (longest + 2).toNat row)[i + 1]? = some next → ∃ before gap behind,
      row.toList = before ++ item.toList ++ List.replicate gap ' ' ++ next.toList ++ behind ∧
      before.length = i * (longest + 2).toNat ∧ 2 ≤ gap
  none : items = [] → rows = []

/-- A row of more than one item is not longer than the width. -/
theorem length_row_le_width {width : Int} (solid : ∀ item ∈ items, IsSolid item)
    (fits : ∀ item ∈ items, item.length + 2 ≤ column) (many : 1 < items.length)
    (few : items.length ≤ perRow width column) : (row column items).length ≤ width := by
  have nonempty : items ≠ [] := List.ne_nil_of_length_pos (by omega)
  have short := length_row nonempty solid fits
  have room : (items.length : Int) ≤ width.fdiv column := by
    have exact := perRow_eq width column
    omega
  rw [Int.fdiv_eq_ediv_of_nonneg _ (Int.natCast_nonneg _)] at room
  have wide : 0 < column := by
    cases column with
    | zero => omega
    | succ c => omega
  have fit := (Int.le_ediv_iff_mul_le (by omega)).1 room
  omega

theorem columnLaw_rows {longest width : Int} {ordered : List String}
    (same : ordered.Perm items) (sorted : ordered.Pairwise (· ≤ ·))
    (solid : ∀ item ∈ items, IsSolid item) (fits : ∀ item ∈ items, item.length ≤ longest) :
    ColumnLaw items longest width
      ((chunks (perRow width (longest + 2)) ordered).map (row (longest + 2).toNat)) := by
  have solid' : ∀ item ∈ ordered, IsSolid item := fun item member =>
    solid item (same.mem_iff.1 member)
  have fits' : ∀ item ∈ ordered, item.length + 2 ≤ (longest + 2).toNat := fun item member => by
    have small := fits item (same.mem_iff.1 member)
    omega
  have all := flatMap_cut_rows (n := perRow width (longest + 2)) solid' fits'
  constructor
  case whole => rwa [all]
  case sorted => rwa [all]
  case full =>
    intro k text place more
    obtain ⟨piece, found, -, -, cut⟩ := exists_piece solid' fits' place
    rw [List.length_map] at more
    rw [cut, length_of_getElem?_chunks (perRow_pos ..) found more, perRow_eq]
  case last =>
    intro text member
    obtain ⟨k, place⟩ := List.mem_iff_getElem?.1 member
    obtain ⟨piece, found, -, -, cut⟩ := exists_piece solid' fits' place
    have size := length_of_mem_chunks (perRow_pos ..) (List.mem_of_getElem? found)
    rw [cut, ← perRow_eq]
    exact ⟨size.1, by exact_mod_cast size.2⟩
  case narrow =>
    intro text member several
    obtain ⟨k, place⟩ := List.mem_iff_getElem?.1 member
    obtain ⟨piece, found, inside, rfl, cut⟩ := exists_piece solid' fits' place
    have size := length_of_mem_chunks (perRow_pos ..) (List.mem_of_getElem? found)
    rw [cut] at several
    obtain ⟨item, first⟩ := List.exists_mem_of_length_pos size.1
    have wide : ((longest + 2).toNat : Int) = longest + 2 := by
      have fit := fits' item (inside first)
      omega
    refine length_row_le_width (fun item member => solid' item (inside member))
      (fun item member => fits' item (inside member)) (by omega) ?_
    rw [wide]
    exact size.2
  case apart =>
    intro text member i item next left right
    obtain ⟨k, place⟩ := List.mem_iff_getElem?.1 member
    obtain ⟨piece, found, inside, rfl, cut⟩ := exists_piece solid' fits' place
    rw [cut] at left right
    exact neighbours_row (fun item member => solid' item (inside member))
      (fun item member => fits' item (inside member)) left right
  case none =>
    rintro rfl
    rw [same.eq_nil, chunks, List.map_nil]

theorem length_le_longest (member : item ∈ items) : item.length ≤ Columns.longest items := by
  have foldl_max : ∀ n, n ≤ items.foldl (fun n item => max n item.length) n ∧
      ∀ item ∈ items, item.length ≤ items.foldl (fun n item => max n item.length) n := by
    clear member
    induction items with
    | nil => simp
    | cons first rest ih =>
        intro n
        obtain ⟨more, others⟩ := ih (max n first.length)
        rw [List.foldl_cons, List.forall_mem_cons]
        exact ⟨by omega, by omega, others⟩
  exact (foldl_max 0).2 item member

/-- In columns that hold the longest of them all items can be laid out and read back. -/
theorem columnLaw_layout (width : Int) (solid : ∀ item ∈ items, IsSolid item) :
    ColumnLaw items (Columns.longest items) width (layout items width) := by
  have columns : (Columns.longest items : Int) + 2 ≠ 0 := by omega
  simp only [layout, layout?, if_neg columns, Option.getD_some]
  exact columnLaw_rows (List.mergeSort_perm ..) (List.pairwise_mergeSort' (· ≤ ·) items) solid
    fun item member => by exact_mod_cast length_le_longest member

/-- Items that end in no white space can be laid out in columns that are wide enough for them, and
all of them can be read back. Where the columns would be zero wide there is no layout, and no
items. -/
theorem columnLaw {longest : Int} (width : Int) (solid : ∀ item ∈ items, IsSolid item)
    (fits : ∀ item ∈ items, item.length ≤ longest) :
    (longest ≠ -2 → ∃ rows, layout? items longest width = some rows ∧
      ColumnLaw items longest width rows) ∧
    (longest = -2 → items = [] ∧ layout? items longest width = none) := by
  refine ⟨fun wide => ⟨_, ?_, columnLaw_rows (List.mergeSort_perm ..)
    (List.pairwise_mergeSort' (· ≤ ·) items) solid fits⟩, ?_⟩
  · have columns : longest + 2 ≠ 0 := by omega
    simp only [layout?, if_neg columns]
  · rintro rfl
    refine ⟨List.eq_nil_iff_forall_not_mem.2 fun item member => ?_, rfl⟩
    have small := fits item member
    omega

def fourNames : List String := ["quit", "a b", "help", "quit"]

/-- Two columns fit into thirteen characters. -/
theorem columnLaw_fourNames : (∀ item ∈ fourNames, IsSolid item) ∧
    (∀ item ∈ fourNames, (item.length : Int) ≤ 4) ∧
    ColumnLaw fourNames 4 13 ["a b   help", "quit  quit"] := by
  have solid : ∀ item ∈ fourNames, IsSolid item := by decide
  have fits : ∀ item ∈ fourNames, (item.length : Int) ≤ 4 := by decide
  obtain ⟨rows, laid, law⟩ := (columnLaw 13 solid fits).1 (by decide)
  have ordered : fourNames.mergeSort (fun a b => decide (a ≤ b)) =
      ["a b", "help", "quit", "quit"] :=
    ((List.mergeSort_perm ..).trans (by decide)).eq_of_pairwise'
      (List.pairwise_mergeSort' (· ≤ ·) fourNames) (by decide)
  have pieces : chunks 2 ["a b", "help", "quit", "quit"] = [["a b", "help"], ["quit", "quit"]] := by
    simp [chunks]
  have shown : layout? fourNames 4 13 = some ["a b   help", "quit  quit"] := by
    simp only [layout?, ordered, show perRow 13 (4 + 2) = 2 from rfl, pieces]
    decide
  obtain rfl := Option.some.inj (laid.symm.trans shown)
  exact ⟨solid, fits, law⟩

/-- No items at all cannot be laid out in columns that are zero wide. -/
theorem layout_without_columns : ¬ ∀ (items : List String) (longest width : Int),
    (∀ item ∈ items, IsSolid item) → (∀ item ∈ items, item.length ≤ longest) →
    ∃ rows, layout? items longest width = some rows ∧ (items = [] → rows = []) := by
  intro always
  obtain ⟨rows, laid, -⟩ := always [] (-2) 20 (by simp) (by simp)
  cases laid

end LineShell.Columns
