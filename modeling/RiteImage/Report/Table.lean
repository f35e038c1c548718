import RiteImage.Text.Width

namespace RiteImage

inductive Alignment
  | left
  | right
  deriving DecidableEq

structure Column where
  title : String
  alignment : Alignment

structure Table where
  columns : List Column
  rows : List (List String)

namespace Table

def cellLines (cell : String) : List String := (cell.toList.splitOn '\n').map String.ofList

def cellWidth (cell : String) : Nat := ((cellLines cell).map Text.width).foldl max 0

def blank (size : Nat) : String := String.ofList (List.replicate size ' ')

def pad (alignment : Alignment) (size : Nat) (text : String) : String :=
  match alignment with
  | .left => text ++ blank (size - Text.width text)
  | .right => blank (size - Text.width text) ++ text

def headings (t : Table) : List String := t.columns.map Column.title

def widths (t : Table) : List Nat :=
  t.rows.foldl (fun sizes row => List.zipWith max sizes (row.map cellWidth))
    (t.headings.map cellWidth)

def rowLine (t : Table) (sizes : List Nat) (row : List (List String)) (index : Nat) : String :=
  let cells := List.zipWith (fun (c : Column × Nat) (lines : List String) =>
    pad c.1.alignment c.2 (lines[index]?.getD "")) (t.columns.zip sizes) row
  String.ofList (Text.trimEnd ("  ".intercalate cells).toList)

def rowLines (t : Table) (sizes : List Nat) (row : List String) : List String :=
  let cells := row.map cellLines
  let height := (cells.map List.length).foldl max 0
  (List.range height).map (t.rowLine sizes cells)

/-- The lines of the table, each after an indentation. -/
def render (t : Table) (indentation : String) : List String :=
  let sizes := t.widths
  ((t.headings :: t.rows).flatMap (t.rowLines sizes)).map (indentation ++ ·)

end Table

end RiteImage
