import Lookahead.Proofs.Grammar.EmptyMarked
import Lookahead.Proofs.LeftCorner.SameCorners

/-!
# Left recursion does not see empty alternatives

The marker in place of an empty right side is a left corner like any symbol in front, but
it is no non-terminal, so the search for a cycle never goes on from it. The search takes the
same steps with the marker as without (`sameCorners_markEmpty`), and finds the same
productions, none of which is empty.

`leftRecursion?_markEmpty` : the report is the same.
-/

namespace Lookahead

namespace Grammar

variable {g : Grammar} {i j : Nat}

theorem head?_markRight {right : List Nat} (hj : j ≠ epsilon) :
    (markRight right).head? = some j ↔ right.head? = some j := by
  cases right with
  | nil => simpa [markRight] using hj.symm
  | cons k rest => rfl

theorem markRight_of_head? {right : List Nat} (h : right.head? = some j) :
    markRight right = right := by
  cases right with
  | nil => simp at h
  | cons k rest => rfl

/-- The production for a step to a symbol is not empty, so it stays as it is. -/
theorem productionTo?_markEmpty (hj : j ≠ epsilon) :
    g.markEmpty.productionTo? i j = g.productionTo? i j := by
  rw [productionTo?, productionTo?, alternatives_markEmpty, List.find?_map]
  simp only [Function.comp_def, head?_markRight hj]
  cases h : (g.alternatives i).find? fun right => decide (right.head? = some j) with
  | none => rfl
  | some right =>
    have hhead : right.head? = some j := by simpa using List.find?_some h
    simp [markRight_of_head? hhead]

/-- The marker is the only symbol that comes to stand in front. -/
theorem filter_heads_markRight {p : Nat → Bool} (hp : p epsilon = false) (rights : List (List Nat)) :
    ((rights.map markRight).filterMap List.head?).filter p =
      (rights.filterMap List.head?).filter p := by
  induction rights with
  | nil => rfl
  | cons right rights ih =>
    cases right with
    | nil =>
      have hhead : (markRight []).head? = some epsilon := rfl
      rw [List.map_cons, List.filterMap_cons_some hhead,
        List.filter_cons_of_neg (by simp [hp]), ih, List.filterMap_cons_none rfl]
    | cons k rest =>
      have hsame : markRight (k :: rest) = k :: rest := rfl
      have hhead : (k :: rest).head? = some k := rfl
      rw [List.map_cons, hsame, List.filterMap_cons_some hhead, List.filterMap_cons_some hhead,
        List.filter_cons, List.filter_cons, ih]

theorem filter_leftCorners_markEmpty {p : Nat → Bool} (hp : p epsilon = false) :
    (g.markEmpty.leftCorners i).filter p = (g.leftCorners i).filter p := by
  rw [leftCorners, leftCorners, filter_eraseDups, filter_eraseDups, alternatives_markEmpty,
    filter_heads_markRight hp]

theorem nonTerminalIndexes_markEmpty (g : Grammar) :
    g.markEmpty.nonTerminalIndexes = g.nonTerminalIndexes := by
  rw [nonTerminalIndexes, nonTerminalIndexes, length_nonTerminals_markEmpty]

theorem isNonTerminal_markEmpty : g.markEmpty.IsNonTerminal i ↔ g.IsNonTerminal i := by
  rw [IsNonTerminal, IsNonTerminal, length_nonTerminals_markEmpty]

/-- No non-terminal has come to stand in front, or has gone from there. -/
theorem sameCorners_markEmpty (g : Grammar) : SameCorners g g.markEmpty id id where
  isNonTerminal _ := isNonTerminal_markEmpty.mpr
  injOn _ _ _ _ h := h
  leftCorners i _ := by
    simp only [isNonTerminal_markEmpty, List.map_id]
    exact filter_leftCorners_markEmpty (decide_eq_false fun h => h.ne_epsilon rfl)
  productionTo? i j _ hj := by
    rw [Option.map_id]
    exact productionTo?_markEmpty hj.ne_epsilon

theorem reportCycle_markEmpty (g : Grammar) (root : Nat) (cycle : List Production) :
    g.markEmpty.reportCycle root cycle = g.reportCycle root cycle := by
  simp [reportCycle, spell]

/-- The marker in place of empty right sides does not change the report. -/
theorem leftRecursion?_markEmpty (g : Grammar) : g.markEmpty.leftRecursion? = g.leftRecursion? := by
  have hreport := (sameCorners_markEmpty g).findSome?_report (e := id) fun i cycle _ _ => by
    rw [List.map_id]
    exact reportCycle_markEmpty g i cycle
  rwa [List.map_id, Option.map_id, ← nonTerminalIndexes_markEmpty] at hreport

end Grammar

end Lookahead
