import Lookahead.Json.Basic

/-!
# Formats of a report

Every report can be printed as plain text, as LaTeX and as JSON. Plain text may have columns that
are padded with blanks, and padding does not go beyond `maxWidth` characters : a report with a wider
column cannot be printed in plain text.
-/

namespace Lookahead

/-- How a report is printed. -/
inductive Format
  | plain
  | latex
  | json
deriving DecidableEq, Repr

/-- A report in its three formats, unless it has a column that is too wide for plain text. -/
class Printable (α : Type) where
  plain? : α → Option String
  latex : α → String
  toJson : α → Json

/-- A report in the given format, if it can be printed. -/
def Printable.print? {α : Type} [Printable α] (format : Format) (report : α) : Option String :=
  match format with
  | .plain => plain? report
  | .latex => some (latex report)
  | .json => some (toJson report).render

/-- The widest column that padding can fill. -/
def maxWidth : Nat := 65535

/-- `s` with blanks in front up to `width` characters. -/
def padLeft (width : Nat) (s : String) : String :=
  String.ofList (s.toList.leftpad width ' ')

/-- Text in lines, without a feed behind the last. -/
def joinLines (lines : List String) : String :=
  "\n".intercalate lines

end Lookahead
