import MonitorExport.Text.Split
import MonitorExport.Text.Width

/-!
Tables of text. Columns are as wide as their widest line, and a cell may have several lines.
-/

namespace MonitorExport.CommandLine

/-- A horizontal line of a table: how it starts, what fills it, what it has where columns meet, and how
it ends. -/
structure Ruling where
  first : Char
  fill : Char
  cross : Char
  last : Char

/-- The lines of a table. -/
structure Border where
  top : Ruling
  underHeader : Ruling
  /-- The line between rows, if there is one. -/
  betweenRows : Option Ruling
  bottom : Ruling
  /-- What stands at both sides of a row. -/
  side : Char
  /-- What stands between two cells. -/
  between : Char

namespace Border

/-- Lines of ASCII characters. -/
def ascii : Border where
  top := ⟨'+', '-', '+', '+'⟩
  underHeader := ⟨'+', '=', '=', '+'⟩
  betweenRows := some ⟨'|', '-', '+', '|'⟩
  bottom := ⟨'+', '-', '+', '+'⟩
  side := '|'
  between := '|'

/-- Lines of box-drawing characters, and none between rows. -/
def boxes : Border where
  top := ⟨'┌', '─', '┬', '┐'⟩
  underHeader := ⟨'╞', '═', '╪', '╡'⟩
  betweenRows := none
  bottom := ⟨'└', '─', '┴', '┘'⟩
  side := '│'
  between := '┆'

end Border

/-- A table: the header and the rows, each with a text for every column. -/
structure Table where
  header : List String
  rows : List (List String)

namespace Table

def cellLines (cell : String) : List String :=
  (Text.splitAt (· = '\n') cell.toList).map String.ofList

def cellWidth (cell : String) : Nat :=
  ((cellLines cell).map Text.width).foldl max 0

/-- The widths of the columns. -/
def widths (t : Table) : List Nat :=
  t.rows.foldl (fun widths row => List.zipWith (fun w cell => max w (cellWidth cell)) widths row)
    (t.header.map cellWidth)

/-- A horizontal line over columns of the given widths. -/
def ruling (r : Ruling) (widths : List Nat) : String :=
  String.singleton r.first
    ++ (String.singleton r.cross).intercalate
      (widths.map fun w => String.ofList (List.replicate (w + 2) r.fill))
    ++ String.singleton r.last

/-- A text in a column, with a blank at both sides. -/
def padded (width : Nat) (s : String) : String :=
  " " ++ s ++ String.ofList (List.replicate (width - Text.width s + 1) ' ')

/-- The lines of a row. -/
def rowLines (b : Border) (widths : List Nat) (row : List String) : List String :=
  let cells := row.map cellLines
  let height := (cells.map List.length).foldl max 0
  (List.range height).map fun i =>
    let texts := List.zipWith (fun w lines => padded w (lines.getD i "")) widths cells
    String.singleton b.side ++ (String.singleton b.between).intercalate texts
      ++ String.singleton b.side

/-- The lines of rows, with a line between each two of them if the border has one. -/
def bodyLines (b : Border) (widths : List Nat) : List (List String) → List String
  | [] => []
  | [row] => rowLines b widths row
  | row :: rest =>
    rowLines b widths row ++ (b.betweenRows.map (ruling · widths)).toList ++ bodyLines b widths rest

/-- The lines of a table. -/
def lines (b : Border) (t : Table) : List String :=
  ruling b.top t.widths :: rowLines b t.widths t.header
    ++ ruling b.underHeader t.widths :: bodyLines b t.widths t.rows
    ++ [ruling b.bottom t.widths]

def text (b : Border) (t : Table) : String :=
  "\n".intercalate (t.lines b)

end Table

end MonitorExport.CommandLine
