import Lookahead.Grammar.Basic
import Lookahead.Grammar.Error

/-!
# From rules to a grammar

A rule gives alternatives by name. Rules with one left side belong together, wherever they stand,
and a name is a non-terminal exactly if some rule has it on its left. So nothing is known about a
name before all rules have been read, and `Grammar.ofRules` is defined on the whole list.

* `leftSides` : the left sides in the order of their first rules.
* `alternativesFor` : the alternatives of one left side, in the order of the rules.
* `terminalNames` : the other names, in the order in which the productions of the grammar show
  them.
-/

namespace Lookahead

/-- Alternatives for a left side, each a list of names. -/
structure Rule where
  left : String
  alternatives : List (List String)
deriving DecidableEq, Repr

namespace Rules

/-- The left sides, each once, in the order of their first rules. -/
def leftSides (rules : List Rule) : List String :=
  (rules.map (·.left)).eraseDups

/-- The alternatives that the rules give for `left`, in order and with repetitions. -/
def alternativesFor (rules : List Rule) (left : String) : List (List String) :=
  (rules.filter (·.left = left)).flatMap (·.alternatives)

/-- The names on the right, in the order in which the productions of the grammar show them. -/
def rightNames (rules : List Rule) : List String :=
  (leftSides rules).flatMap fun left => (alternativesFor rules left).flatten

/-- The names on the right that no rule defines, each once and in order. The empty string is none
of them. -/
def terminalNames (rules : List Rule) : List String :=
  ((rightNames rules).filter fun name => name ∉ leftSides rules ∧ name ≠ epsilonName).eraseDups

/-- The number of a name among the symbols: its place behind the two markers, and 0 for a name
that has no place, which only the empty string has not. -/
def number (names : List String) (name : String) : Nat :=
  match names.idxOf? name with
  | some k => Grammar.start + k
  | none => Grammar.epsilon

end Rules

open Rules

/-- The grammar of a list of rules. It takes at least one rule to name the start symbol. -/
def Grammar.ofRules (rules : List Rule) : Except GrammarError Grammar :=
  if rules.isEmpty then .error .noRules
  else
    let names := leftSides rules ++ terminalNames rules
    .ok {
      nonTerminals := (leftSides rules).map fun left =>
        ⟨left, (alternativesFor rules left).map (·.map (number names))⟩
      terminals := terminalNames rules }

namespace Rules

theorem mem_leftSides {rules : List Rule} {name : String} :
    name ∈ leftSides rules ↔ ∃ r ∈ rules, r.left = name := by
  simp [leftSides, List.mem_eraseDups]

theorem mem_alternativesFor {rules : List Rule} {left : String} {alternative : List String} :
    alternative ∈ alternativesFor rules left ↔
      ∃ r ∈ rules, r.left = left ∧ alternative ∈ r.alternatives := by
  simp [alternativesFor, and_assoc]

theorem mem_terminalNames {rules : List Rule} {name : String} :
    name ∈ terminalNames rules ↔
      name ∈ rightNames rules ∧ name ∉ leftSides rules ∧ name ≠ epsilonName := by
  simp [terminalNames, List.mem_eraseDups]

end Rules

theorem Grammar.ofRules_eq_error_iff {rules : List Rule} {e : GrammarError} :
    ofRules rules = .error e ↔ rules = [] ∧ e = .noRules := by
  cases rules <;> simp [ofRules, eq_comm]

theorem Grammar.exists_ofRules_eq_ok_iff {rules : List Rule} :
    (∃ g, ofRules rules = .ok g) ↔ rules ≠ [] := by
  cases rules <;> simp [ofRules]

end Lookahead
