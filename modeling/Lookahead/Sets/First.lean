import Lookahead.Fixpoint
import Lookahead.Grammar.Basic
import Lookahead.Sets.Table

/-!
# FIRST

FIRST of a string of symbols holds the terminals that can stand in front of what the string
derives, and `ε` if the string can derive nothing. For a grammar

    E -> T X
    X -> + T X | ε
    T -> int | ( E )

FIRST(E) = FIRST(T) = {int, (} and FIRST(X) = {+, ε}. A terminal and either marker is its own
FIRST.

* `SetTable.firstOf` : FIRST of a string, from the FIRST sets of its symbols.
* `Grammar.first` : the FIRST set of every symbol. A pass reads the productions in order and adds
  FIRST of a right side to the set of the left side; what it adds is seen by the rest of the same
  pass.
-/

namespace Lookahead

open Grammar (epsilon)

namespace SetTable

/-- Whether the set in row `i` says that the symbol can derive nothing. -/
def IsNullable (t : SetTable) (i : Nat) : Prop :=
  epsilon ∈ t.get i

instance (t : SetTable) (i : Nat) : Decidable (t.IsNullable i) :=
  inferInstanceAs (Decidable (_ ∈ _))

/-- FIRST of a string of symbols: the sets of its symbols, up to the first that is not nullable. -/
def firstOf (t : SetTable) : List Nat → IndexSet
  | [] => .single epsilon
  | i :: rest => if t.IsNullable i then (t.get i).erase epsilon ∪ t.firstOf rest else t.get i

/-- FIRST of a string of symbols, unless the scan of the string comes upon a number that has no
row. -/
def firstOf? (t : SetTable) : List Nat → Option IndexSet
  | [] => some (.single epsilon)
  | i :: rest =>
    match t.get? i with
    | none => none
    | some s => if epsilon ∈ s then (t.firstOf? rest).map (s.erase epsilon ∪ ·) else some s

@[simp] theorem firstOf_nil (t : SetTable) : t.firstOf [] = .single epsilon := rfl

theorem firstOf_cons_of_isNullable {t : SetTable} {i : Nat} (h : t.IsNullable i) (rest : List Nat) :
    t.firstOf (i :: rest) = (t.get i).erase epsilon ∪ t.firstOf rest := by
  simp [firstOf, h]

theorem firstOf_cons_of_not_isNullable {t : SetTable} {i : Nat} (h : ¬t.IsNullable i)
    (rest : List Nat) : t.firstOf (i :: rest) = t.get i := by
  simp [firstOf, h]

theorem firstOf?_eq_some {t : SetTable} {string : List Nat} (h : ∀ i ∈ string, i < t.size) :
    t.firstOf? string = some (t.firstOf string) := by
  induction string with
  | nil => rfl
  | cons i rest ih =>
    have hi : t.get? i = some (t.get i) := by
      have := h i (.head _)
      simp [get, get?, size] at this ⊢
      simp [this]
    simp only [firstOf?, firstOf, hi, IsNullable, ih fun j hj => h j (.tail _ hj)]
    split <;> simp [*]

end SetTable

namespace Grammar

variable (g : Grammar)

/-- Before the first pass a non-terminal has no member, and every other symbol has itself. -/
def firstStart : SetTable :=
  .tabulate g.symbolCount fun i => if g.IsNonTerminal i then ∅ else .single i

/-- Adds FIRST of each right side to the set of its left side, one production after the other. -/
def firstPass (t : SetTable) : SetTable :=
  g.productions.foldl (fun t p => t.add p.left (t.firstOf p.right)) t

/-- The FIRST sets with the number of passes that computed them. -/
def firstLimit : Limit SetTable :=
  settle g.firstPass SetTable.gap g.firstStart

/-- The FIRST set of every symbol. -/
def first : SetTable :=
  g.firstLimit.value

end Grammar

end Lookahead
