/-!
# Sets of indexes

A finite set of natural numbers, kept as its strictly ascending list. Two sets with the same
members are the same value (`IndexSet.ext`), and each operation is pinned down by its members:
`mem_insert`, `mem_union`, `mem_erase`.
-/

namespace Lookahead

/-- A finite set of natural numbers. -/
structure IndexSet where
  /-- The members in ascending order. -/
  toList : List Nat
  ascending : toList.Pairwise (· < ·)
deriving DecidableEq, Repr

namespace IndexSet

instance : Membership Nat IndexSet := ⟨fun s i => i ∈ s.toList⟩

theorem mem_toList {s : IndexSet} {i : Nat} : i ∈ s.toList ↔ i ∈ s := Iff.rfl

instance (s : IndexSet) (i : Nat) : Decidable (i ∈ s) := inferInstanceAs (Decidable (i ∈ s.toList))

instance : EmptyCollection IndexSet := ⟨⟨[], .nil⟩⟩

instance : Inhabited IndexSet := ⟨∅⟩

/-- The number of members. -/
def size (s : IndexSet) : Nat :=
  s.toList.length

/-- Puts `i` in its place in an ascending list. -/
def insertSorted (i : Nat) : List Nat → List Nat
  | [] => [i]
  | j :: js => if i < j then i :: j :: js else if i = j then j :: js else j :: insertSorted i js

theorem mem_insertSorted {i k : Nat} {js : List Nat} :
    k ∈ insertSorted i js ↔ k = i ∨ k ∈ js := by
  induction js with
  | nil => simp [insertSorted]
  | cons j js ih =>
    unfold insertSorted
    split
    · simp
    · split
      · simp_all
      · simp only [List.mem_cons, ih]
        exact or_left_comm

theorem pairwise_insertSorted {i : Nat} {js : List Nat} (h : js.Pairwise (· < ·)) :
    (insertSorted i js).Pairwise (· < ·) := by
  induction js with
  | nil => simp [insertSorted]
  | cons j js ih =>
    have ⟨hj, hjs⟩ := List.pairwise_cons.mp h
    unfold insertSorted
    split
    · next hlt =>
      refine List.pairwise_cons.mpr ⟨fun k hk => ?_, h⟩
      rcases List.mem_cons.mp hk with rfl | hk
      · exact hlt
      · exact Nat.lt_trans hlt (hj k hk)
    · split
      · exact h
      · refine List.pairwise_cons.mpr ⟨fun k hk => ?_, ih hjs⟩
        rcases mem_insertSorted.mp hk with rfl | hk
        · omega
        · exact hj k hk

/-- The set with `i` added. -/
def insert (s : IndexSet) (i : Nat) : IndexSet :=
  ⟨insertSorted i s.toList, pairwise_insertSorted s.ascending⟩

/-- The set without `i`. -/
def erase (s : IndexSet) (i : Nat) : IndexSet :=
  ⟨s.toList.filter (· ≠ i), s.ascending.filter _⟩

/-- The members of either set. -/
def union (s t : IndexSet) : IndexSet :=
  t.toList.foldl insert s

instance : Union IndexSet := ⟨union⟩

/-- The set whose only member is `i`. -/
def single (i : Nat) : IndexSet :=
  ⟨[i], by simp⟩

@[simp] theorem not_mem_empty (i : Nat) : i ∉ (∅ : IndexSet) :=
  List.not_mem_nil

@[simp] theorem mem_single {i k : Nat} : k ∈ single i ↔ k = i :=
  List.mem_singleton

@[simp] theorem mem_insert {s : IndexSet} {i k : Nat} : k ∈ s.insert i ↔ k = i ∨ k ∈ s :=
  mem_insertSorted

@[simp] theorem mem_erase {s : IndexSet} {i k : Nat} : k ∈ s.erase i ↔ k ∈ s ∧ k ≠ i := by
  simp [← mem_toList, erase]

theorem mem_foldl_insert {js : List Nat} {s : IndexSet} {k : Nat} :
    k ∈ js.foldl insert s ↔ k ∈ s ∨ k ∈ js := by
  induction js generalizing s with
  | nil => simp
  | cons j js ih =>
    rw [List.foldl_cons, ih, mem_insert, List.mem_cons]
    grind

@[simp] theorem mem_union {s t : IndexSet} {k : Nat} : k ∈ s ∪ t ↔ k ∈ s ∨ k ∈ t :=
  mem_foldl_insert

/-- An ascending list is determined by its members. -/
theorem eq_of_pairwise_of_mem_iff {xs ys : List Nat} (hx : xs.Pairwise (· < ·))
    (hy : ys.Pairwise (· < ·)) (h : ∀ i, i ∈ xs ↔ i ∈ ys) : xs = ys := by
  induction xs generalizing ys with
  | nil =>
    cases ys with
    | nil => rfl
    | cons y ys => exact absurd ((h y).mpr (.head _)) (by simp)
  | cons x xs ih =>
    cases ys with
    | nil => exact absurd ((h x).mp (.head _)) (by simp)
    | cons y ys =>
      have ⟨hx1, hx2⟩ := List.pairwise_cons.mp hx
      have ⟨hy1, hy2⟩ := List.pairwise_cons.mp hy
      have hxy : x = y := by
        rcases List.mem_cons.mp ((h x).mp (.head _)) with e | e
        · exact e
        · rcases List.mem_cons.mp ((h y).mpr (.head _)) with e' | e'
          · exact e'.symm
          · exact absurd (Nat.lt_trans (hx1 y e') (hy1 x e)) (Nat.lt_irrefl _)
      subst hxy
      congr 1
      refine ih hx2 hy2 fun i => ⟨fun hi => ?_, fun hi => ?_⟩
      · rcases List.mem_cons.mp ((h i).mp (.tail _ hi)) with rfl | e
        · exact absurd (hx1 i hi) (Nat.lt_irrefl _)
        · exact e
      · rcases List.mem_cons.mp ((h i).mpr (.tail _ hi)) with rfl | e
        · exact absurd (hy1 i hi) (Nat.lt_irrefl _)
        · exact e

@[ext] theorem ext {s t : IndexSet} (h : ∀ i, i ∈ s ↔ i ∈ t) : s = t := by
  cases s with
  | mk xs hx =>
    cases t with
    | mk ys hy =>
      congr
      exact eq_of_pairwise_of_mem_iff hx hy h

end IndexSet

end Lookahead
