import WorktreeTracker.ObjectId

/-!
# Tables of text

Rows shown as left-aligned columns. A column is as wide as its widest cell, counted in characters,
and two spaces separate columns; the last cell of a row is not padded. Cells can be padded to at most
65535 characters, so a table with a wider column and a cell after it cannot be shown.
-/

namespace WorktreeTracker

namespace Table

/-- The separator between two columns. -/
def separator : String := "  "

/-- The number of columns of the longest row. -/
def columnCount (rows : List (List String)) : Nat :=
  (rows.map List.length).foldl max 0

/-- The width of column `i`: the largest number of characters of a cell in it. -/
def width (rows : List (List String)) (i : Nat) : Nat :=
  (rows.map fun row => ((row[i]?).map String.length).getD 0).foldl max 0

/-- The widths of all columns. -/
def widths (rows : List (List String)) : List Nat :=
  (List.range (columnCount rows)).map (width rows)

/-- A cell with spaces after it up to `width` characters. -/
def padCell (width : Nat) (cell : String) : String :=
  cell ++ String.ofList (List.replicate (width - cell.length) ' ')

/-- The cells of a row, all but the last padded to the widths of their columns. -/
def padRow : (widths : List Nat) → List String → List String
  | _, [] => []
  | _, [last] => [last]
  | [], cell :: rest => cell :: padRow [] rest
  | w :: ws, cell :: rest => padCell w cell :: padRow ws rest

/-- The line of a row. -/
def formatRow (widths : List Nat) (row : List String) : String :=
  separator.intercalate (padRow widths row)

/-- The lines of a table. -/
def format (rows : List (List String)) : String :=
  "\n".intercalate (rows.map (formatRow (widths rows)))

/-! ## Tables that cannot be shown -/

/-- The largest width that a cell can be padded to. -/
def maxPadding : Nat := UInt16.size - 1

/-- Whether the cells of a row can be padded, all but the last to the widths of their columns. -/
def canPad (widths : List Nat) (row : List String) : Bool :=
  (widths.take (row.length - 1)).all (· ≤ maxPadding)

/-- The reason for which a table cannot be shown. -/
inductive Error where
  /-- A cell has to be padded to a width above `maxPadding`. -/
  | tooWide
deriving DecidableEq, Repr

/-- The message shown for a table that cannot be shown. -/
def Error.message : Error → String
  | .tooWide => "Formatting argument out of range"

/-- The lines of a table, when every row can be padded. -/
def render (rows : List (List String)) : Except Error String :=
  if rows.all (canPad (widths rows)) then .ok (format rows) else .error .tooWide

end Table

end WorktreeTracker
