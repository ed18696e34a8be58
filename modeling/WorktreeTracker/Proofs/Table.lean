import Mathlib.Algebra.BigOperators.Group.Finset.Basic
import Mathlib.Order.Bounds.Basic
import WorktreeTracker.Proofs.Text
import WorktreeTracker.Table

/-!
# Alignment of tables

Every row is a line, and every cell starts where its column does, whatever the lengths of the rows: a
column starts after the columns before it, each as wide as its longest cell with two blanks after it.
So cells can be read back from a line by the offsets of the columns. A cell that is the last one of its
row counts for the width of its column and is not padded. A table is not shown at all when a cell would
have to be padded to more than `maxPadding` characters.
-/

namespace WorktreeTracker

namespace Table

variable {rows : List (List String)} {row : List String} {cell : String} {i : Nat}

/-! ## Widths -/

theorem le_foldl_max {n : Nat} {ns : List Nat} (h : n ∈ ns) : n ≤ ns.foldl max 0 := by
  rw [List.foldl_max]
  cases hmax : ns.max? with
  | none => exact absurd (List.max?_eq_none_iff.1 hmax) (List.ne_nil_of_mem h)
  | some m => exact Nat.le_trans ((List.max?_eq_some_iff.1 hmax).2 n h) (Nat.le_max_right 0 m)

theorem foldl_max_mem {ns : List Nat} (h : ns ≠ []) : ns.foldl max 0 ∈ ns := by
  rw [List.foldl_max]
  cases hmax : ns.max? with
  | none => exact absurd (List.max?_eq_none_iff.1 hmax) h
  | some m =>
    rw [Option.getD_some, Nat.zero_max]
    exact (List.max?_eq_some_iff.1 hmax).1

/-- No cell is longer than its column is wide. -/
theorem length_le_width (hrow : row ∈ rows) (hcell : row[i]? = some cell) :
    cell.length ≤ width rows i := by
  refine le_foldl_max (List.mem_map.2 ⟨row, hrow, ?_⟩)
  rw [hcell]
  rfl

/-- A column is as wide as one of its cells is long. -/
theorem exists_length_eq_width (hrow : row ∈ rows) (hcell : row[i]? = some cell) :
    ∃ other ∈ rows, ∃ widest, other[i]? = some widest ∧ widest.length = width rows i := by
  have hmem : width rows i ∈ rows.map fun row => ((row[i]?).map String.length).getD 0 :=
    foldl_max_mem (List.ne_nil_of_mem (List.mem_map_of_mem hrow))
  obtain ⟨other, hother, hwidth⟩ := List.mem_map.1 hmem
  cases hwidest : other[i]? with
  | some widest =>
    rw [hwidest] at hwidth
    exact ⟨other, hother, widest, hwidest, hwidth⟩
  | none =>
    -- the row counts for nothing, so all cells of the column are empty
    rw [hwidest] at hwidth
    have hle := length_le_width hrow hcell
    rw [← hwidth] at hle
    exact ⟨row, hrow, cell, hcell, (Nat.le_zero.1 hle).trans hwidth⟩

/-- A column is as wide as its longest cell. -/
theorem isGreatest_width (hrow : row ∈ rows) (hi : i < row.length) :
    IsGreatest {n | ∃ row ∈ rows, ∃ cell, row[i]? = some cell ∧ cell.length = n} (width rows i) := by
  constructor
  · exact exists_length_eq_width hrow (List.getElem?_eq_getElem hi)
  · rintro n ⟨other, hother, cell, hcell, rfl⟩
    exact length_le_width hother hcell

/-- Every column of a row has a width. -/
theorem widths_getElem? (hrow : row ∈ rows) (hi : i < row.length) :
    (widths rows)[i]? = some (width rows i) := by
  have hcount : i < columnCount rows :=
    Nat.lt_of_lt_of_le hi (le_foldl_max (List.mem_map_of_mem hrow))
  simp [widths, hcount]

/-! ## Rows -/

variable {w : Nat → Nat} {ws : List Nat}

/-- The columns of a row are as wide as `w` says, and its cells are no longer than that. -/
structure Fits (w : Nat → Nat) (ws : List Nat) (row : List String) : Prop where
  /-- The columns have the widths. -/
  widths : ∀ i < row.length, ws[i]? = some (w i)
  /-- No cell is longer than its column is wide. -/
  cells : ∀ i cell, row[i]? = some cell → cell.length ≤ w i

theorem fits_of_mem (hrow : row ∈ rows) : Fits (width rows) (widths rows) row where
  widths _ hi := widths_getElem? hrow hi
  cells _ _ hcell := length_le_width hrow hcell

/-- The first cell fits the first column, and the others fit those after it. -/
theorem Fits.uncons {rest : List String} (h : Fits w ws (cell :: rest)) :
    ∃ others, ws = w 0 :: others ∧ cell.length ≤ w 0 ∧ Fits (fun j => w (j + 1)) others rest := by
  have hfirst := h.widths 0 (Nat.zero_lt_succ _)
  cases ws with
  | nil => cases hfirst
  | cons first others =>
    obtain rfl := Option.some.inj hfirst
    refine ⟨others, rfl, h.cells 0 cell rfl, ?_, ?_⟩
    · exact fun i hi => h.widths (i + 1) (Nat.succ_lt_succ hi)
    · exact fun i other hother => h.cells (i + 1) other hother

/-- Where column `i` starts: after the columns before it, each with two blanks. -/
def offset (w : Nat → Nat) (i : Nat) : Nat := ∑ j ∈ Finset.range i, (w j + 2)

theorem offset_succ (w : Nat → Nat) (i : Nat) :
    offset w (i + 1) = w 0 + 2 + offset (fun j => w (j + 1)) i := by
  rw [offset, Finset.sum_range_succ', Nat.add_comm]
  rfl

theorem toList_padCell (width : Nat) (cell : String) :
    (padCell width cell).toList = cell.toList ++ List.replicate (width - cell.length) ' ' := by
  rw [padCell, String.toList_append, String.toList_ofList]

theorem padRow_ne_nil (ws : List Nat) (cell : String) (rest : List String) :
    padRow ws (cell :: rest) ≠ [] := by
  cases rest <;> cases ws <;> simp [padRow]

/-- A cell that is not the last one of its row is padded and followed by a separator. -/
theorem formatRow_cons_cons (width : Nat) (ws : List Nat) (cell next : String)
    (rest : List String) :
    formatRow (width :: ws) (cell :: next :: rest) =
      padCell width cell ++ separator ++ formatRow ws (next :: rest) :=
  String.intercalate_cons_of_ne_nil (padRow_ne_nil ws next rest)

/-- The same line as characters: the blanks of the padding and those of the separator are one run. -/
theorem toList_formatRow_cons_cons {width : Nat} {next : String} {rest : List String}
    (hroom : cell.length ≤ width) :
    (formatRow (width :: ws) (cell :: next :: rest)).toList =
      cell.toList ++ List.replicate (width + 2 - cell.length) ' ' ++
        (formatRow ws (next :: rest)).toList := by
  have hblanks : List.replicate (width + 2 - cell.length) ' ' =
      List.replicate (width - cell.length) ' ' ++ separator.toList := by
    rw [Nat.sub_add_comm hroom, List.replicate_add]
    rfl
  rw [formatRow_cons_cons, String.toList_append, String.toList_append, toList_padCell, hblanks,
    List.append_assoc cell.toList]

/-- A cell stands in the line of its row where its column starts. After the last cell the line ends,
and after any other there are blanks up to the next column. -/
theorem exists_toList_formatRow_eq (hfits : Fits w ws row) (hcell : row[i]? = some cell) :
    ∃ front back, (formatRow ws row).toList = front ++ (cell.toList ++ back) ∧
      front.length = offset w i ∧
      (i + 1 = row.length ∧ back = [] ∨
        i + 1 < row.length ∧ ∃ more, back = List.replicate (w i + 2 - cell.length) ' ' ++ more) := by
  -- the row without its first cell fits the columns after the first one, so the widths vary too
  induction row generalizing w ws i with
  | nil => cases hcell
  | cons first rest ih =>
    obtain ⟨others, rfl, hroom, hrest⟩ := hfits.uncons
    cases rest with
    | nil =>
      cases i with
      | zero =>
        obtain rfl := Option.some.inj hcell
        exact ⟨[], [], by simp [formatRow, padRow], rfl, .inl ⟨rfl, rfl⟩⟩
      | succ i => cases hcell
    | cons next rest =>
      rw [toList_formatRow_cons_cons hroom]
      cases i with
      | zero =>
        obtain rfl := Option.some.inj hcell
        exact ⟨[], _, List.append_assoc _ _ _, rfl, .inr ⟨by simp, _, rfl⟩⟩
      | succ i =>
        obtain ⟨front, back, hline, hfront, hback⟩ := ih hrest hcell
        refine ⟨first.toList ++ List.replicate (w 0 + 2 - first.length) ' ' ++ front, back, ?_, ?_, ?_⟩
        · rw [hline, List.append_assoc _ front]
        · rw [List.length_append, List.length_append, String.length_toList, List.length_replicate,
            hfront, offset_succ]
          omega
        · rw [List.length_cons, Nat.add_right_cancel_iff, Nat.add_lt_add_iff_right]
          exact hback

/-- A line has only the characters of its cells and blanks. -/
theorem not_mem_formatRow {c : Char} (hfits : Fits w ws row) (hblank : c ≠ ' ')
    (hcells : ∀ cell ∈ row, c ∉ cell.toList) : c ∉ (formatRow ws row).toList := by
  induction row generalizing w ws with
  | nil => exact List.not_mem_nil
  | cons first rest ih =>
    obtain ⟨others, rfl, hroom, hrest⟩ := hfits.uncons
    cases rest with
    | nil => exact hcells first List.mem_cons_self
    | cons next rest =>
      rw [toList_formatRow_cons_cons hroom, List.mem_append, List.mem_append, List.mem_replicate]
      rintro ((hfirst | ⟨-, heq⟩) | hlater)
      · exact hcells first List.mem_cons_self hfirst
      · exact hblank heq
      · exact ih hrest (fun cell hcell => hcells cell (List.mem_cons_of_mem _ hcell)) hlater

/-! ## Lines -/

/-- What a line has in column `i`: the characters from its start to that of the next column. -/
def columnText (w : Nat → Nat) (i : Nat) (line : String) : String :=
  String.ofList ((line.toList.drop (offset w i)).take (w i + 2))

/-- A line shows the cells of a row in columns as wide as `w` says. -/
structure Aligned (w : Nat → Nat) (row : List String) (line : String) : Prop where
  /-- Every cell starts where its column does. -/
  starts : ∀ i cell, row[i]? = some cell →
    ∃ front back, line = front ++ cell ++ back ∧ front.length = offset w i
  /-- The line ends with the last cell. -/
  ends : ∀ cell, row.getLast? = some cell →
    ∃ front, line = front ++ cell ∧ front.length = offset w (row.length - 1)
  /-- From the start of its column as many characters are read as a cell has, and they are the
  cell. -/
  reads : ∀ i cell, row[i]? = some cell →
    String.ofList ((line.toList.drop (offset w i)).take cell.length) = cell
  /-- A column has a cell with blanks up to the next column, and the last cell without them. -/
  columns : ∀ i cell, row[i]? = some cell →
    columnText w i line = cell ++ String.ofList
      (List.replicate (if i + 1 = row.length then 0 else w i + 2 - cell.length) ' ')
  /-- A row without cells is an empty line. -/
  empty : row = [] → line = ""

/-- The line of a row shows its cells. -/
theorem Fits.aligned (h : Fits w ws row) : Aligned w row (formatRow ws row) := by
  constructor
  case starts =>
    intro i cell hcell
    obtain ⟨front, back, hline, hfront, -⟩ := exists_toList_formatRow_eq h hcell
    refine ⟨String.ofList front, String.ofList back, ?_, ?_⟩
    · simp [← String.toList_inj, hline]
    · rw [String.length_ofList, hfront]
  case ends =>
    intro cell hlast
    rw [List.getLast?_eq_getElem?] at hlast
    obtain ⟨front, back, hline, hfront, ⟨-, rfl⟩ | ⟨hmore, -⟩⟩ := exists_toList_formatRow_eq h hlast
    · refine ⟨String.ofList front, ?_, ?_⟩
      · simp [← String.toList_inj, hline]
      · rw [String.length_ofList, hfront]
    · omega
  case reads =>
    intro i cell hcell
    obtain ⟨front, back, hline, hfront, -⟩ := exists_toList_formatRow_eq h hcell
    rw [hline, List.drop_left' hfront, List.take_left' String.length_toList, String.ofList_toList]
  case columns =>
    intro i cell hcell
    obtain ⟨front, back, hline, hfront, hback⟩ := exists_toList_formatRow_eq h hcell
    have hroom : cell.toList.length ≤ w i := String.length_toList ▸ h.cells i cell hcell
    rw [columnText, hline, List.drop_left' hfront, ← String.toList_inj, String.toList_ofList,
      String.toList_append, String.toList_ofList, ← String.length_toList]
    rcases hback with ⟨hlast, rfl⟩ | ⟨hlast, more, rfl⟩
    -- the last cell may be as long as its column is wide, and nothing comes after it
    · rw [if_pos hlast, List.append_nil, List.take_of_length_le (by omega)]
      exact (List.append_nil _).symm
    · rw [if_neg (by omega), ← List.append_assoc, ← String.length_toList]
      refine List.take_left' ?_
      rw [List.length_append, List.length_replicate]
      omega
  case empty =>
    rintro rfl
    rfl

/-! ## Tables -/

/-- A row can be padded exactly when every column that a cell is padded in is narrow enough. -/
theorem canPad_iff (hrow : row ∈ rows) :
    canPad (widths rows) row = true ↔ ∀ i, i + 1 < row.length → width rows i ≤ maxPadding := by
  simp only [canPad, List.all_eq_true, decide_eq_true_iff, List.mem_take_iff_getElem]
  constructor
  · intro h i hi
    obtain ⟨hlt, hget⟩ := List.getElem?_eq_some_iff.1
      (widths_getElem? hrow (Nat.lt_of_succ_lt hi))
    exact h _ ⟨i, Nat.lt_min.2 ⟨Nat.lt_sub_of_add_lt hi, hlt⟩, hget⟩
  · rintro h _ ⟨i, hi, rfl⟩
    have hi' := Nat.add_lt_of_lt_sub (Nat.lt_min.1 hi).1
    have hget := widths_getElem? hrow (Nat.lt_of_succ_lt hi')
    rw [List.getElem?_eq_getElem (Nat.lt_min.1 hi).2] at hget
    rw [Option.some.inj hget]
    exact h i hi'

/-- A table cannot be shown exactly when a cell has to be padded in a column that is too wide. -/
theorem render_eq_error_iff :
    render rows = .error .tooWide ↔
      ∃ row ∈ rows, ∃ i, i + 1 < row.length ∧ maxPadding < width rows i := by
  have hall : rows.all (canPad (widths rows)) = true ↔
      ∀ row ∈ rows, ∀ i, i + 1 < row.length → width rows i ≤ maxPadding := by
    rw [List.all_eq_true]
    exact forall₂_congr fun row hrow => canPad_iff hrow
  rw [render]
  split
  next h =>
    refine iff_of_false (by simp) ?_
    rintro ⟨row, hrow, i, hi, hwide⟩
    exact absurd (hall.1 h row hrow i hi) (Nat.not_le_of_lt hwide)
  next h =>
    rw [hall] at h
    push Not at h
    exact iff_of_true rfl h

/-- The text of a table that can be shown. -/
theorem eq_format_of_render {text : String} (h : render rows = .ok text) : text = format rows := by
  rw [render] at h
  split at h
  next => exact (Except.ok.inj h).symm
  next => cases h

/-- The lines of a table are those of its rows. -/
theorem splitOn_format (hrows : rows ≠ [])
    (hcells : ∀ row ∈ rows, ∀ cell ∈ row, '\n' ∉ cell.toList) :
    Text.splitOn '\n' (format rows) = rows.map (formatRow (widths rows)) := by
  refine Text.splitOn_intercalate (fun line hline => ?_) (by simpa using hrows)
  obtain ⟨row, hrow, rfl⟩ := List.mem_map.1 hline
  exact not_mem_formatRow (fits_of_mem hrow) (by decide) (hcells row hrow)

/-- A table of cells without newlines is shown unless a cell has to be padded to more than
`maxPadding` characters. Every row is one line of it, and every cell starts where its column does:
after the columns before it, each as wide as its longest cell with two blanks after it. The line ends
with the last cell as it is, and every cell is read back from the start of its column. -/
theorem render_aligned {rows : List (List String)}
    (hcells : ∀ row ∈ rows, ∀ cell ∈ row, '\n' ∉ cell.toList) :
    (render rows = .error .tooWide ↔
        ∃ row ∈ rows, ∃ i, i + 1 < row.length ∧ maxPadding < width rows i) ∧
      (∀ row ∈ rows, ∀ i < row.length, IsGreatest
        {n | ∃ other ∈ rows, ∃ cell, other[i]? = some cell ∧ cell.length = n} (width rows i)) ∧
      ∀ text, render rows = .ok text →
        ∃ lines : List String, text = "\n".intercalate lines ∧
          (rows ≠ [] → Text.splitOn '\n' text = lines) ∧
          List.Forall₂ (Aligned (width rows)) rows lines := by
  refine ⟨render_eq_error_iff, fun row hrow i hi => isGreatest_width hrow hi, ?_⟩
  intro text htext
  obtain rfl := eq_format_of_render htext
  refine ⟨rows.map (formatRow (widths rows)), rfl, fun hrows => splitOn_format hrows hcells, ?_⟩
  rw [List.forall₂_map_right_iff, List.forall₂_same]
  exact fun row hrow => (fits_of_mem hrow).aligned

/-! ## Ragged and wide tables -/

/-- Rows of several lengths, with a character that takes three bytes and a cell without any. -/
def ragged : List (List String) := [["日本", "x"], ["a"], [], ["bb", "", "c"]]

/-- The last cell of the second row is not padded, and the column of the empty cell is. -/
theorem render_aligned_ragged :
    (∀ row ∈ ragged, ∀ cell ∈ row, '\n' ∉ cell.toList) ∧
      render ragged = .ok "日本  x\na\n\nbb     c" ∧
      List.Forall₂ (Aligned (width ragged)) ragged ["日本  x", "a", "", "bb     c"] := by
  have hcells : ∀ row ∈ ragged, ∀ cell ∈ row, '\n' ∉ cell.toList := by decide
  have hrender : render ragged = .ok "日本  x\na\n\nbb     c" := by decide
  obtain ⟨-, -, hshown⟩ := render_aligned hcells
  obtain ⟨lines, -, hsplit, haligned⟩ := hshown _ hrender
  have hlines : lines = ["日本  x", "a", "", "bb     c"] :=
    (hsplit (by decide)).symm.trans (by decide)
  exact ⟨hcells, hrender, hlines ▸ haligned⟩

/-- A row with a cell that is longer than any padding, and a cell after it. -/
def wideRow : List String := [String.ofList (List.replicate (maxPadding + 1) 'x'), "y"]

/-- A table of a single row without newlines is not shown. -/
theorem wide_table_refused :
    (∀ cell ∈ wideRow, '\n' ∉ cell.toList) ∧ render [wideRow] = .error .tooWide := by
  constructor
  · simp [wideRow, List.mem_replicate]
  · rw [render_eq_error_iff]
    refine ⟨wideRow, List.mem_singleton_self _, 0, by simp [wideRow], ?_⟩
    have hwide : (String.ofList (List.replicate (maxPadding + 1) 'x')).length ≤ width [wideRow] 0 :=
      length_le_width (List.mem_singleton_self _) rfl
    rwa [String.length_ofList, List.length_replicate] at hwide

end Table

end WorktreeTracker
