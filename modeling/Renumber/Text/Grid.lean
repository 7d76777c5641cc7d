import Renumber.Text.Split
import Renumber.Text.Width

/-!
# Text tables

A table with a header, drawn with plain characters. A column is as wide as its widest
line, a cell takes as many lines as its text has, and all rows are kept apart by rules.
-/

namespace Renumber.Text

/-- A table of texts. -/
structure Grid where
  header : List String
  rows : List (List String)

namespace Grid

/-- The lines of a cell. -/
def linesIn (cell : String) : List (List Char) :=
  splitOn '\n' cell.toList

/-- The columns that a cell takes. -/
def cellWidth (cell : String) : Nat :=
  ((linesIn cell).map width).foldl max 0

/-- The widths of the columns of a table. -/
def columnWidths (g : Grid) : List Nat :=
  g.rows.foldl (fun widths row => widths.zipWith max (row.map cellWidth)) (g.header.map cellWidth)

/-- A text, filled up with blanks, between two blanks. -/
def padded (columns : Nat) (s : List Char) : List Char :=
  ' ' :: (s ++ List.replicate (columns - width s) ' ' ++ [' '])

/-- A horizontal rule: its ends, and what stands in and between the columns. -/
def rule (ends fill cross : Char) (widths : List Nat) : List Char :=
  let runs := widths.map fun n => List.replicate (n + 2) fill
  ends :: (joinWith cross runs ++ [ends])

/-- The lines of a row, each cell dressed by `dress` after it was filled up. -/
def rowLines (dress : List Char → List Char) (widths : List Nat) (row : List String) :
    List (List Char) :=
  let cells := row.map linesIn
  let height := (cells.map List.length).foldl max 0
  (List.range height).map fun i =>
    let pieces := cells.zipWith (fun lines n => dress (padded n (lines[i]?.getD []))) widths
    '|' :: (joinWith '|' pieces ++ ['|'])

/-- A text in bright cyan. -/
def inCyan (s : List Char) : List Char :=
  "\x1b[38;5;14m".toList ++ s ++ "\x1b[39m".toList

/-- Draw a table, its header in colour if asked for. No line feed follows. -/
def render (g : Grid) (colored : Bool) : String :=
  let widths := g.columnWidths
  let edge := rule '+' '-' '+' widths
  let header := rowLines (if colored then inCyan else id) widths g.header
  let rows := g.rows.map (rowLines id widths)
  let body := (rows.intersperse [rule '|' '-' '+' widths]).flatten
  let lines := edge :: header ++ [rule '+' '=' '=' widths] ++ body ++ [edge]
  String.ofList (joinWith '\n' lines)

end Grid

end Renumber.Text
