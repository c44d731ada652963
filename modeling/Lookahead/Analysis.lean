import Lookahead.Grammar.RuleLine
import Lookahead.LeftCorner.Recursion
import Lookahead.Sets.Follow

/-!
# Analysis

The analysis of a grammar is its FIRST and FOLLOW sets. `Grammar.analysis` computes them for any
grammar, `Grammar.analyze` only for one that is not left recursive, and `analyzeText` starts from
the text of a grammar.

* `analyze_eq_ok_iff` : the analysis is refused exactly if there is left recursion, and is
  otherwise the one that is computed for any grammar.
-/

namespace Lookahead

/-- The sets of a grammar, each table with the number of passes that computed it. -/
structure Analysis where
  first : SetTable
  firstPasses : Nat
  follow : SetTable
  followPasses : Nat
deriving DecidableEq, Repr

/-- What keeps a text from being analyzed. -/
inductive AnalysisError
  | grammar (error : GrammarError)
  | leftRecursion (recursion : LeftRecursion)
deriving DecidableEq, Repr

namespace AnalysisError

def message : AnalysisError → String
  | grammar error => error.message
  | leftRecursion recursion => "Grammar invalid for top-down parsing: " ++ recursion.message

end AnalysisError

namespace Grammar

variable (g : Grammar)

/-- The FIRST and FOLLOW sets of a grammar, left recursive or not. -/
def analysis : Analysis where
  first := g.first
  firstPasses := g.firstLimit.passes
  follow := g.follow g.first
  followPasses := (g.followLimit g.first).passes

/-- The FIRST and FOLLOW sets of a grammar without left recursion. -/
def analyze : Except LeftRecursion Analysis :=
  match g.leftRecursion? with
  | some recursion => .error recursion
  | none => .ok g.analysis

theorem analyze_eq_ok_iff {a : Analysis} :
    g.analyze = .ok a ↔ g.leftRecursion? = none ∧ a = g.analysis := by
  cases h : g.leftRecursion? <;> simp [analyze, h, eq_comm]

theorem analyze_eq_error_iff {r : LeftRecursion} :
    g.analyze = .error r ↔ g.leftRecursion? = some r := by
  cases h : g.leftRecursion? <;> simp [analyze, h]

end Grammar

/-- Reads a grammar and analyzes it. -/
def analyzeText (text : String) : Except AnalysisError (Grammar × Analysis) := do
  let g ← (Grammar.ofText text).mapError .grammar
  let a ← g.analyze.mapError .leftRecursion
  return (g, a)

end Lookahead
