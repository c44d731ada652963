import Lookahead.Grammar.Basic
import Lookahead.Latex
import Lookahead.Report.Format

/-!
# The list of productions

One row per non-terminal, with its alternatives by name. In plain text a row takes one line per
alternative, and the left sides are pushed to the right so that the arrows stand below each other:

    E -> T X
    X -> + T X
       | ε

The column is as wide as the longest left side is in bytes of UTF-8, while padding counts
characters. `plain` lays the list out for a column of any width, and `plain?` is what can be printed
of it.
-/

namespace Lookahead

/-- A left side with its alternatives, by name. -/
structure ProductionRow where
  left : String
  rights : List (List String)
deriving DecidableEq, Repr

namespace ProductionRow

variable (row : ProductionRow)

/-- An alternative in plain text. -/
def alternativeText (right : List String) : String :=
  if right.isEmpty then epsilonName else " ".intercalate right

/-- The row with all alternatives on one line. -/
def plainLine (width : Nat) : String :=
  if row.rights.isEmpty then ""
  else padLeft width row.left ++ " -> " ++ " | ".intercalate (row.rights.map alternativeText)

/-- The lines of the row, one per alternative. -/
def plainLines (width : Nat) : List String :=
  match row.rights with
  | [] => []
  | right :: rest =>
    (padLeft width row.left ++ " -> " ++ alternativeText right)
      :: rest.map fun right => padLeft width "" ++ "  | " ++ alternativeText right

/-- The row with every alternative on a line of its own. -/
def plain (width : Nat) : String :=
  joinLines (row.plainLines width)

/-- Whether the row can be padded to the width. Without alternatives, nothing is padded. -/
def fits (width : Nat) : Bool :=
  row.rights.isEmpty || width ≤ maxWidth

/-- The row on one line, if it can be printed. -/
def plainLine? (width : Nat) : Option String :=
  if row.fits width then some (row.plainLine width) else none

/-- The row with every alternative on a line of its own, if it can be printed. -/
def plain? (width : Nat) : Option String :=
  if row.fits width then some (row.plain width) else none

/-- An alternative in LaTeX. -/
def alternativeLatex (right : List String) : String :=
  if right.isEmpty then Latex.epsilonMacro else Latex.symbols right " \\ "

/-- The row in LaTeX, with the arrow given. -/
def latexWith (arrow : String) : String :=
  if row.rights.isEmpty then ""
  else Latex.escape row.left ++ arrow ++ " \\mid ".intercalate (row.rights.map alternativeLatex)

/-- The row as a formula. -/
def latex : String :=
  row.latexWith " \\rightarrow "

/-- The row as a row of an array, with the arrow in a column of its own. -/
def latexColumns : String :=
  row.latexWith " & \\rightarrow &"

def toJson : Json :=
  .object [("left", .string row.left), ("rights", .array (row.rights.map Json.strings))]

end ProductionRow

/-- The productions of a grammar, by name. -/
structure ProductionReport where
  rows : List ProductionRow
deriving DecidableEq, Repr

namespace ProductionReport

variable (report : ProductionReport)

/-- The width of the column for the left sides. -/
def width : Nat :=
  (report.rows.map (·.left.utf8ByteSize)).max?.getD 0

def plain : String :=
  joinLines (report.rows.map (·.plain report.width))

/-- The report in plain text, if all its rows can be printed. -/
def plain? : Option String :=
  (report.rows.mapM (ProductionRow.plain? · report.width)).map joinLines

def latex : String :=
  Latex.newRow.intercalate
    (["\\[\\begin" ++ Latex.group "array" ++ Latex.group "cll"]
      ++ report.rows.map (·.latexColumns) ++ ["\\end" ++ Latex.group "array" ++ "\\]"])

def toJson : Json :=
  .object [("productions", .array (report.rows.map (·.toJson)))]

instance : Printable ProductionReport := ⟨plain?, latex, toJson⟩

end ProductionReport

namespace Grammar

/-- The row of a non-terminal. -/
def productionRow (g : Grammar) (nt : NonTerminal) : ProductionRow :=
  ⟨nt.name, nt.productions.map g.spell⟩

/-- The productions by name. -/
def productionReport (g : Grammar) : ProductionReport :=
  ⟨g.nonTerminals.map g.productionRow⟩

end Grammar

end Lookahead
