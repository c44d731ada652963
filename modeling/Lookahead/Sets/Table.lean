import Lookahead.IndexSet

/-!
# Tables of sets

One set of symbol numbers for every number of a grammar. FIRST and FOLLOW are such tables; they
are filled in by adding whole sets to rows. A row that the table does not have is empty, and
nothing can be added to it.

* `get_add`, `size_add` : what adding to a row changes.
* `gap` : how many entries are missing before every row holds every number.
-/

namespace Lookahead

/-- A set of numbers for each number below some bound. -/
structure SetTable where
  rows : List IndexSet
deriving DecidableEq, Repr

namespace SetTable

/-- The number of rows. -/
def size (t : SetTable) : Nat :=
  t.rows.length

/-- The set in row `i`, if there is such a row. -/
def get? (t : SetTable) (i : Nat) : Option IndexSet :=
  t.rows[i]?

/-- The set in row `i`. -/
def get (t : SetTable) (i : Nat) : IndexSet :=
  (t.get? i).getD ∅

/-- The table with the members of `s` added to row `i`. -/
def add (t : SetTable) (i : Nat) (s : IndexSet) : SetTable :=
  ⟨t.rows.modify i (· ∪ s)⟩

/-- The number of entries in all rows together. -/
def total (t : SetTable) : Nat :=
  t.rows.foldr (fun s n => s.size + n) 0

/-- The number of entries that a table over as many numbers as it has rows can still gain. -/
def gap (t : SetTable) : Nat :=
  t.size * t.size - t.total

/-- The table with `n` rows, in which row `i` is `f i`. -/
def tabulate (n : Nat) (f : Nat → IndexSet) : SetTable :=
  ⟨(List.range n).map f⟩

@[simp] theorem size_tabulate (n : Nat) (f : Nat → IndexSet) : (tabulate n f).size = n := by
  simp [tabulate, size]

theorem get_tabulate {n i : Nat} (f : Nat → IndexSet) (h : i < n) : (tabulate n f).get i = f i := by
  simp [tabulate, get, get?, h]

theorem get_eq_empty {t : SetTable} {i : Nat} (h : t.size ≤ i) : t.get i = ∅ := by
  simp [get, get?, List.getElem?_eq_none h]

@[simp] theorem size_add (t : SetTable) (i : Nat) (s : IndexSet) : (t.add i s).size = t.size := by
  simp [add, size]

theorem get_add {t : SetTable} {i : Nat} (s : IndexSet) (h : i < t.size) (j : Nat) :
    (t.add i s).get j = if i = j then t.get j ∪ s else t.get j := by
  simp only [get, get?, add, List.getElem?_modify]
  split
  · next hij =>
    subst hij
    simp [size] at h
    simp [h]
  · simp

theorem mem_get_add {t : SetTable} {i : Nat} {s : IndexSet} (h : i < t.size) {j k : Nat} :
    k ∈ (t.add i s).get j ↔ k ∈ t.get j ∨ i = j ∧ k ∈ s := by
  rw [get_add s h]
  split <;> simp [*]

end SetTable

end Lookahead
