import Lookahead.Grammar.Basic

/-!
# LaTeX text

Symbols may hold characters that LaTeX reads as commands. `Latex.escape` writes them so that they
are printed as they are: a backslash in front, a command, or an empty group behind a character
that would otherwise join the next one. Of two dashes in a row the first is written with such a
group, as two dashes would be printed as one long dash.

In lists of symbols the empty string is printed as the macro for epsilon, also inside a longer
name.
-/

namespace Lookahead.Latex

/-- A group, that is text between braces. -/
def group (s : String) : String :=
  "\x7b" ++ s ++ "\x7d"

/-- How a character is written that does not depend on its neighbours. -/
def escapeChar (c : Char) : String :=
  if c ∈ ['&', '%', '$', '#', '_', '\x7b', '\x7d'] then "\\" ++ c.toString
  else if c ∈ ['[', ']'] then group c.toString
  else match c with
    | '~' => "\\textasciitilde" ++ group ""
    | '^' => "\\textasciicircum" ++ group ""
    | '<' => "\\textless" ++ group ""
    | '>' => "\\textgreater" ++ group ""
    | '\\' => "\\textbackslash" ++ group ""
    | '!' => "!" ++ group ""
    | c => c.toString

/-- The characters of a name with what LaTeX would take for a command escaped. -/
def escapeChars : List Char → List Char
  | [] => []
  | c :: rest =>
    (if c = '-' ∧ rest.head? = some '-' then "-" ++ group "" else escapeChar c).toList
      ++ escapeChars rest

/-- A name as LaTeX text. -/
def escape (name : String) : String :=
  String.ofList (escapeChars name.toList)

/-- The macro for the empty string. -/
def epsilonMacro : String := "\\epsilon"

/-- A text with the macro in place of every epsilon. -/
def replaceEpsilon (s : String) : String :=
  String.ofList (s.toList.flatMap fun c => if c = 'ε' then epsilonMacro.toList else [c])

/-- A symbol in a list of symbols. -/
def symbol (name : String) : String :=
  replaceEpsilon (escape name)

/-- A list of symbols with `separator` between them. -/
def symbols (names : List String) (separator : String) : String :=
  separator.intercalate (names.map symbol)

/-- The end of a row with the start of the next line. -/
def newRow : String := "\\\\\n"

end Lookahead.Latex
