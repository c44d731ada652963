import Lookahead.Analysis
import Lookahead.Latex
import Lookahead.Report.Format

/-!
# Reports on sets

FIRST and FOLLOW of every non-terminal, either in a list of its own or both in one table. The
members of a set are listed by name: first the terminals in the order of their code points, then
the end mark, then the empty string.

* `Grammar.memberNames` : the names of a set in that order.
* `SetReport`, `Summary` : the list of one kind of set, and the table of both.
-/

namespace Lookahead

/-- One set by name. -/
structure SetRow where
  name : String
  members : List String
deriving DecidableEq, Repr

/-- One set by name for every non-terminal, under a common title. -/
structure SetReport where
  title : String
  rows : List SetRow
deriving DecidableEq, Repr

namespace SetReport

variable (report : SetReport)

/-- A row in plain text, as `FIRST(X) = ` and the members between braces. -/
def plainRow (row : SetRow) : String :=
  report.title ++ "(" ++ row.name ++ ") = \x7b " ++ ", ".intercalate row.members ++ " \x7d"

def plain : String :=
  joinLines (report.rows.map report.plainRow)

/-- A row as a formula. -/
def latexRow (row : SetRow) : String :=
  "\\mathrm" ++ Latex.group report.title ++ "(" ++ Latex.escape row.name ++ ") = \\\x7b "
    ++ Latex.symbols row.members ",\\ " ++ " \\\x7d"

def latex : String :=
  Latex.newRow.intercalate (report.rows.map report.latexRow)

def rowToJson (row : SetRow) : Json :=
  .object [("name", .string row.name), ("set", .strings row.members)]

def toJson : Json :=
  .object [("title", .string report.title), ("data", .array (report.rows.map rowToJson))]

instance : Printable SetReport := ⟨fun report => some report.plain, latex, toJson⟩

end SetReport

/-- FIRST and FOLLOW of one non-terminal by name. -/
structure SummaryRow where
  name : String
  nullable : Bool
  first : List String
  follow : List String
deriving DecidableEq, Repr

namespace SummaryRow

variable (row : SummaryRow)

/-- The word for whether the non-terminal is nullable. -/
def nullableWord : String :=
  if row.nullable then "true" else "false"

def plain : String :=
  " | ".intercalate
    [row.name, row.nullableWord, ", ".intercalate row.first, ", ".intercalate row.follow]

def latex : String :=
  " & ".intercalate
    [Latex.escape row.name, row.nullableWord, Latex.symbols row.first "\\ ",
      Latex.symbols row.follow "\\ "]

def toJson : Json :=
  .object [("name", .string row.name), ("nullable", .bool row.nullable),
    ("first", .strings row.first), ("follow", .strings row.follow)]

end SummaryRow

/-- FIRST and FOLLOW of every non-terminal by name. -/
structure Summary where
  rows : List SummaryRow
deriving DecidableEq, Repr

namespace Summary

variable (report : Summary)

def plain : String :=
  joinLines (report.rows.map (·.plain))

def latex : String :=
  "\\begin" ++ Latex.group "tabular" ++ Latex.group "c|c|c|c" ++ "\n"
    ++ "Symbol & Nullable & First & Follow\\\\\\hline\n"
    ++ (Latex.newRow ++ " ").intercalate (report.rows.map (·.latex))
    ++ Latex.newRow ++ "\\end" ++ Latex.group "tabular"

def toJson : Json :=
  .object [("data", .array (report.rows.map (·.toJson)))]

instance : Printable Summary := ⟨fun report => some report.plain, latex, toJson⟩

end Summary

namespace Grammar

variable (g : Grammar)

/-- The names of the members that are not markers, in the order of their code points. -/
def symbolNames (s : IndexSet) : List String :=
  ((s.toList.filter fun i => i ≠ epsilon ∧ i ≠ endMark).map g.name).mergeSort
    fun a b => decide (a ≤ b)

/-- The names of the members, the markers last. -/
def memberNames (s : IndexSet) : List String :=
  g.symbolNames s
    ++ (if endMark ∈ s then [endMarkName] else [])
    ++ (if epsilon ∈ s then [epsilonName] else [])

/-- The set of every non-terminal in `t`, by name. -/
def setRows (t : SetTable) : List SetRow :=
  g.nonTerminalIndexes.map fun i => ⟨g.name i, g.memberNames (t.get i)⟩

/-- FIRST of every non-terminal. -/
def firstReport (a : Analysis) : SetReport :=
  ⟨"FIRST", g.setRows a.first⟩

/-- FOLLOW of every non-terminal. -/
def followReport (a : Analysis) : SetReport :=
  ⟨"FOLLOW", g.setRows a.follow⟩

/-- Both sets of every non-terminal. -/
def summary (a : Analysis) : Summary :=
  ⟨g.nonTerminalIndexes.map fun i =>
    ⟨g.name i, decide (a.first.IsNullable i), g.memberNames (a.first.get i),
      g.memberNames (a.follow.get i)⟩⟩

end Grammar

/-- The table of both sets for the grammar in a text as JSON, or the message of what is wrong with
the text. -/
def summaryJson (text : String) : String :=
  match analyzeText text with
  | .ok (g, a) => (g.summary a).toJson.render
  | .error e => (Json.object [("error", .string e.message)]).render

end Lookahead
