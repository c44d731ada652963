import Lookahead.LeftCorner.Links
import Lookahead.Report.Productions
import Lookahead.Report.Sets
import Lookahead.Sets.Loop

/-!
# Look-ups by number

A number that is not in use has no name, stands for no symbol and has no row in a table. The sets
and the reports take it for an empty name and for an empty row. Here they are put together from
look-ups that may find nothing, and `none` stands for a run that comes upon such a number.

* `Grammar.analyze?` : the search for left recursion and both solvers, with the log.
* `Grammar.productionReport?`, `Grammar.firstReport?`, `Grammar.followReport?`, `Grammar.summary?` :
  the reports.
-/

namespace Lookahead

namespace Grammar

variable (g : Grammar)

/-! ## The analysis -/

/-- The occurrences of non-terminals in a string on the right side of `left`, where each symbol is
looked up. -/
def occurrencesIn? (left : Nat) : List Nat → Option (List Occurrence)
  | [] => some []
  | i :: rest => do
    let symbol ← g.symbol? i
    let others ← occurrencesIn? left rest
    return if symbol.isNonTerminal then ⟨left, i, rest⟩ :: others else others

/-- A pass over the productions that looks up which of their symbols are non-terminals. -/
def followRound? (first t : SetTable) : Option Progress := do
  let occurrences ← g.productions.mapM fun p => g.occurrencesIn? p.left p.right
  t.round Occurrence.symbol (followAt? first) occurrences.flatten

/-- The FOLLOW sets with the log of computing them. The start symbol needs a row for the end
mark. -/
def solveFollow? (first : SetTable) : Option (SetTable × List Event) := do
  let _ ← g.followStart.get? start
  g.followStart.repeatPasses (g.followRound? first) .followPass 1 [.followSets]

/-- The FIRST and FOLLOW sets of a grammar without left recursion, with the log. -/
def analyze? : Option (List Event × Except LeftRecursion (SetTable × SetTable)) := do
  match ← g.findLeftRecursion with
  | some (_, recursion) => return ([.leftRecursionCheck], .error recursion)
  | none =>
    let (first, firstLog) ← g.solveFirst
    let (follow, followLog) ← g.solveFollow? first
    return (.leftRecursionCheck :: firstLog ++ followLog, .ok (first, follow))

/-! ## The reports -/

/-- The row of a non-terminal. -/
def productionRow? (nt : NonTerminal) : Option ProductionRow := do
  let rights ← nt.productions.mapM g.spell?
  return ⟨nt.name, rights⟩

/-- The productions by name. -/
def productionReport? : Option ProductionReport := do
  let rows ← g.nonTerminals.mapM g.productionRow?
  return ⟨rows⟩

/-- The names of the members, the markers last. -/
def memberNames? (s : IndexSet) : Option (List String) := do
  let names ← (s.toList.filter fun i => i ≠ epsilon ∧ i ≠ endMark).mapM g.name?
  let markers ← ([endMark, epsilon].filter (· ∈ s)).mapM g.name?
  return names.mergeSort (fun a b => decide (a ≤ b)) ++ markers

/-- The set of the non-terminal `i` in `t`, by name. -/
def setRow? (t : SetTable) (i : Nat) : Option SetRow := do
  let name ← g.name? i
  let set ← t.get? i
  let members ← g.memberNames? set
  return ⟨name, members⟩

/-- FIRST of every non-terminal. -/
def firstReport? (a : Analysis) : Option SetReport := do
  let rows ← g.nonTerminalIndexes.mapM (g.setRow? a.first)
  return ⟨"FIRST", rows⟩

/-- FOLLOW of every non-terminal. -/
def followReport? (a : Analysis) : Option SetReport := do
  let rows ← g.nonTerminalIndexes.mapM (g.setRow? a.follow)
  return ⟨"FOLLOW", rows⟩

/-- Both sets of the non-terminal `i`, by name. -/
def summaryRow? (a : Analysis) (i : Nat) : Option SummaryRow := do
  let name ← g.name? i
  let first ← a.first.get? i
  let follow ← a.follow.get? i
  let firstNames ← g.memberNames? first
  let followNames ← g.memberNames? follow
  return ⟨name, decide (epsilon ∈ first), firstNames, followNames⟩

/-- Both sets of every non-terminal. -/
def summary? (a : Analysis) : Option Summary := do
  let rows ← g.nonTerminalIndexes.mapM (g.summaryRow? a)
  return ⟨rows⟩

end Grammar

end Lookahead
