import Lookahead.Grammar.Basic

/-!
# Cycles among left corners

A left corner of a non-terminal is a symbol that one of its right sides starts with. A
non-terminal that comes back to itself from left corner to left corner derives strings that start
with it. `Grammar.leftCycle?` looks for the productions of such a way back by a depth-first
search, in which every non-terminal is looked at once. Only what stands first counts: a symbol
behind others that can vanish is no left corner.

* `mem_leftCorners` : the left corners of a non-terminal are what its right sides start with.
* `productionTo?_eq_some` : the production for a step is one of the first symbol of the step, and
  starts with the second.
-/

namespace Lookahead

namespace Grammar

variable (g : Grammar)

/-- The symbols that the right sides of `i` start with, each once, in the order of the
alternatives. -/
def leftCorners (i : Nat) : List Nat :=
  ((g.alternatives i).filterMap List.head?).eraseDups

/-- `j` is a non-terminal and a left corner of `i`. -/
def LeftEdge (i j : Nat) : Prop :=
  g.IsNonTerminal j ∧ j ∈ g.leftCorners i

/-- The first production of `i` that starts with `j`. -/
def productionTo? (i j : Nat) : Option Production :=
  ((g.alternatives i).find? (·.head? = some j)).map (⟨i, ·⟩)

end Grammar

/-- A way from the root of a search to `tip`, the last step first. -/
structure Trail where
  tip : Nat
  steps : List Production
deriving DecidableEq, Repr

namespace Grammar

variable (g : Grammar)

/-- The trails that go on from `trail` to the given left corners of its tip. -/
def extend (trail : Trail) (corners : List Nat) : List Trail :=
  corners.filterMap fun j =>
    (g.productionTo? trail.tip j).map fun p => ⟨j, p :: trail.steps⟩

/-- Follows left corners from the trails of `stack`, the first trail first, until one leads back
to `root`, and returns the productions on the way there. Of several ways on, the last is taken
first. The non-terminals in `unreached` have no trail yet. -/
def searchFrom (root : Nat) (unreached : List Nat) : List Trail → Option (List Production)
  | [] => none
  | trail :: stack =>
    match g.productionTo? trail.tip root with
    | some p => some (p :: trail.steps).reverse
    | none =>
      let fresh := (g.leftCorners trail.tip).filter (· ∈ unreached)
      searchFrom root (unreached.removeAll fresh) ((g.extend trail fresh).reverse ++ stack)
termination_by stack => (unreached.length, stack.length)
decreasing_by
  cases hf : (g.leftCorners trail.tip).filter (· ∈ unreached) with
  | nil =>
    have hnil : unreached.removeAll [] = unreached := by simp [List.removeAll]
    rw [hnil]
    exact Prod.Lex.right _ (Nat.lt_succ_self _)
  | cons j js =>
    have hj : j ∈ unreached := by
      have := List.mem_filter.mp (hf ▸ List.mem_cons_self : j ∈ List.filter _ _)
      simpa using this.2
    exact Prod.Lex.left _ _ (List.length_filter_lt_length_iff_exists.mpr ⟨j, hj, by simp⟩)

/-- The productions of a way from `root` along left corners back to `root`, if there is one. -/
def leftCycle? (root : Nat) : Option (List Production) :=
  g.searchFrom root (g.nonTerminalIndexes.filter (· ≠ root)) [⟨root, []⟩]

theorem mem_leftCorners {i j : Nat} :
    j ∈ g.leftCorners i ↔ ∃ right ∈ g.alternatives i, right.head? = some j := by
  simp [leftCorners, List.mem_eraseDups]

theorem productionTo?_eq_some {i j : Nat} {p : Production} (h : g.productionTo? i j = some p) :
    p ∈ g.productions ∧ p.left = i ∧ p.right.head? = some j := by
  simp only [productionTo?, Option.map_eq_some_iff] at h
  obtain ⟨right, hr, rfl⟩ := h
  exact ⟨g.mem_productions.mpr (List.mem_of_find?_eq_some hr), rfl,
    by simpa using List.find?_some hr⟩

theorem productionTo?_isSome {i j : Nat} : (g.productionTo? i j).isSome ↔ j ∈ g.leftCorners i := by
  simp [productionTo?, mem_leftCorners, List.find?_isSome]

end Grammar

end Lookahead
