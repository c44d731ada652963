import Lookahead.LeftCorner.Search

/-!
# Left recursion

A grammar is left recursive if some non-terminal is reached again from left corner to left corner.
Such a grammar is of no use for parsing from the top down. `Grammar.leftRecursion?` reports the
first such non-terminal in the order of the grammar, with the productions that lead back to it.
-/

namespace Lookahead

/-- A non-terminal with the productions that lead from it back to itself, by name. -/
structure LeftRecursion where
  nonTerminal : String
  chain : List (String × List String)
deriving DecidableEq, Repr

namespace LeftRecursion

/-- Whether a production starts with its own left side, or only the way over others leads back. -/
inductive Kind
  | direct
  | indirect
deriving DecidableEq, Repr

/-- A single production leads back directly. -/
def kind (r : LeftRecursion) : Kind :=
  if r.chain.length ≤ 1 then .direct else .indirect

/-- The productions of the chain as a list of rules. -/
def rules (r : LeftRecursion) : String :=
  ", ".intercalate (r.chain.map fun (left, right) => left ++ " -> " ++ " ".intercalate right)

def message (r : LeftRecursion) : String :=
  match r.kind with
  | .direct => "Direct left recursion found in rule: " ++ r.rules
  | .indirect => "Indirect left recursion detected involving " ++ r.nonTerminal ++ ": " ++ r.rules

end LeftRecursion

namespace Grammar

variable (g : Grammar)

/-- The report on a way from `root` back to itself. -/
def reportCycle (root : Nat) (cycle : List Production) : LeftRecursion :=
  ⟨g.name root, cycle.map fun p => (g.name p.left, g.spell p.right)⟩

/-- The left recursion of the first non-terminal that has one. -/
def leftRecursion? : Option LeftRecursion :=
  g.nonTerminalIndexes.findSome? fun i => (g.leftCycle? i).map (g.reportCycle i)

end Grammar

end Lookahead
