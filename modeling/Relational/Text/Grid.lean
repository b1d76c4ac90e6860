import Relational.Text.Width

/-!
# Tables drawn with characters

A header and rows within borders. A column is as wide as its widest line and at least one
character; a cell may hold several lines.
-/
namespace Relational.Text

abbrev Cells := List String

private def linesOf (cell : String) : List String := cell.splitOn "\n"

private def cellWidth (cell : String) : Nat := ((linesOf cell).map width).foldl max 1

def columnWidths (header : Cells) (rows : List Cells) : List Nat :=
  rows.foldl (fun widths row => widths.zipWith max (row.map cellWidth)) (header.map cellWidth)

def border (widths : List Nat) : String :=
  let parts := widths.map fun n => String.ofList (List.replicate (n + 2) '-')
  "+" ++ "+".intercalate parts ++ "+"

def gridLine (widths : List Nat) (line : Cells) : String :=
  "| " ++ " | ".intercalate (widths.zipWith padTo line) ++ " |"

def gridRow (widths : List Nat) (row : Cells) : List String :=
  let cells := row.map linesOf
  let height := (cells.map List.length).foldl max 1
  (List.range height).map fun i => gridLine widths (cells.map fun c => c.getD i "")

def grid (header : Cells) (rows : List Cells) : String :=
  let widths := columnWidths header rows
  let head := border widths :: gridRow widths header ++ [border widths]
  "\n".intercalate (head ++ rows.flatMap (gridRow widths) ++ [border widths])

end Relational.Text
