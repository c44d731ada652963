import Mathlib.Data.List.Nodup
import Mathlib.Data.List.Range
import Mathlib.Data.List.Perm.Subperm
import Lookahead.Fixpoint
import Lookahead.Sets.Table

/-!
# Passes over a table of sets

A pass of either solver reads a list of items in order, and each item adds some set to one
row, in view of the table as it is by then (`SetTable.fill`). So a pass only adds, and
passes that are repeated until the gap stays as it is end at a table that a further pass
leaves alone.

Tables of one size are ordered by their rows. On tables over the numbers below `n`
(`SetTable.Within`) the gap gets smaller exactly if the table grows (`gap_lt_gap`).

* `settle_fill_induct` : what a single addition preserves, repeated passes preserve.
* `fill_settle` : repeated passes end at a table that a pass leaves alone.
* `gain_subset_of_fill_eq` : what a pass leaves alone holds all that its items add.
-/

namespace Lookahead

/-! ## Sets -/

namespace IndexSet

instance : HasSubset IndexSet := ⟨fun s t => ∀ i, i ∈ s → i ∈ t⟩

variable {s t : IndexSet}

theorem subset_antisymm (hst : s ⊆ t) (hts : t ⊆ s) : s = t :=
  IndexSet.ext fun i => ⟨hst i, hts i⟩

theorem nodup_toList (s : IndexSet) : s.toList.Nodup :=
  s.ascending.imp Nat.ne_of_lt

theorem size_le_of_subset (h : s ⊆ t) : s.size ≤ t.size :=
  (s.nodup_toList.subperm h).length_le

theorem eq_of_subset_of_size_le (h : s ⊆ t) (hsize : t.size ≤ s.size) : s = t := by
  have hperm := (s.nodup_toList.subperm h).perm_of_length_le hsize
  exact subset_antisymm h fun i hi => hperm.mem_iff.mpr hi

theorem size_le_of_forall_lt {n : Nat} (h : ∀ i ∈ s, i < n) : s.size ≤ n := by
  have hsub : s.toList ⊆ List.range n := fun i hi => List.mem_range.mpr (h i hi)
  simpa [size] using (s.nodup_toList.subperm hsub).length_le

end IndexSet

namespace SetTable

theorem mem_get_tabulate {n i k : Nat} {f : Nat → IndexSet} :
    k ∈ (tabulate n f).get i ↔ i < n ∧ k ∈ f i := by
  by_cases hi : i < n
  · rw [get_tabulate f hi]
    exact (and_iff_right hi).symm
  · rw [get_eq_empty (by simpa using hi)]
    exact iff_of_false (IndexSet.not_mem_empty k) fun h => hi h.1

/-! ## The order of tables -/

theorem get_cons_succ (s : IndexSet) (rows : List IndexSet) (i : Nat) :
    (mk (s :: rows)).get (i + 1) = (mk rows).get i := by
  simp [get, get?]

theorem total_cons (s : IndexSet) (rows : List IndexSet) :
    (mk (s :: rows)).total = s.size + (mk rows).total := rfl

/-- A table has all that a smaller one of the same size has. -/
instance : LE SetTable := ⟨fun t u => t.size = u.size ∧ ∀ i, t.get i ⊆ u.get i⟩

variable {t u v : SetTable}

theorem le_refl (t : SetTable) : t ≤ t :=
  ⟨rfl, fun _ _ h => h⟩

theorem le_trans (htu : t ≤ u) (huv : u ≤ v) : t ≤ v :=
  ⟨htu.1.trans huv.1, fun i k hk => huv.2 i k (htu.2 i k hk)⟩

theorem cons_le_cons {s s' : IndexSet} {rows rows' : List IndexSet} :
    mk (s :: rows) ≤ mk (s' :: rows') ↔ s ⊆ s' ∧ mk rows ≤ mk rows' := by
  constructor
  · rintro ⟨hsize, hget⟩
    refine ⟨hget 0, by simpa [size] using hsize, fun i => ?_⟩
    have := hget (i + 1)
    rwa [get_cons_succ, get_cons_succ] at this
  · rintro ⟨hs, hsize, hget⟩
    refine ⟨by simpa [size] using hsize, fun i => ?_⟩
    cases i with
    | zero => exact hs
    | succ i =>
      rw [get_cons_succ, get_cons_succ]
      exact hget i

theorem total_le_total (h : t ≤ u) : t.total ≤ u.total := by
  obtain ⟨rows⟩ := t
  obtain ⟨rows'⟩ := u
  induction rows generalizing rows' with
  | nil => exact Nat.zero_le _
  | cons s rows ih =>
    cases rows' with
    | nil => simpa [size] using h.1
    | cons s' rows' =>
      obtain ⟨hs, hrows⟩ := cons_le_cons.mp h
      rw [total_cons, total_cons]
      exact Nat.add_le_add (IndexSet.size_le_of_subset hs) (ih _ hrows)

theorem eq_of_le_of_total_le (h : t ≤ u) (htotal : u.total ≤ t.total) : t = u := by
  obtain ⟨rows⟩ := t
  obtain ⟨rows'⟩ := u
  induction rows generalizing rows' with
  | nil =>
    cases rows' with
    | nil => rfl
    | cons s' rows' => simpa [size] using h.1
  | cons s rows ih =>
    cases rows' with
    | nil => simpa [size] using h.1
    | cons s' rows' =>
      obtain ⟨hs, hrows⟩ := cons_le_cons.mp h
      rw [total_cons, total_cons] at htotal
      have hsize := IndexSet.size_le_of_subset hs
      have hrest := total_le_total hrows
      obtain rfl := IndexSet.eq_of_subset_of_size_le hs (by omega)
      have := ih rows' hrows (by omega)
      simpa using this

theorem le_antisymm (htu : t ≤ u) (hut : u ≤ t) : t = u :=
  eq_of_le_of_total_le htu (total_le_total hut)

/-- The table has a row for each number below `n`, and its rows hold such numbers only. -/
structure Within (t : SetTable) (n : Nat) : Prop where
  size_eq : t.size = n
  lt : ∀ i, ∀ k ∈ t.get i, k < n

theorem Within.get?_eq {n i : Nat} (h : t.Within n) (hi : i < n) : t.get? i = some (t.get i) := by
  rw [← h.size_eq, size] at hi
  simp [get, get?, hi]

theorem total_le_size_mul {n : Nat} (h : ∀ i, ∀ k ∈ t.get i, k < n) : t.total ≤ t.size * n := by
  obtain ⟨rows⟩ := t
  induction rows with
  | nil => exact Nat.zero_le _
  | cons s rows ih =>
    have hs : s.size ≤ n := IndexSet.size_le_of_forall_lt (h 0)
    have hrows := ih fun i k hk => h (i + 1) k (by rwa [get_cons_succ])
    have hsize : (mk (s :: rows)).size * n = n + (mk rows).size * n := by
      simp [size, Nat.add_mul, Nat.add_comm]
    rw [total_cons, hsize]
    exact Nat.add_le_add hs hrows

theorem Within.total_le {n : Nat} (h : t.Within n) : t.total ≤ t.size * t.size := by
  have := total_le_size_mul h.lt
  rwa [← h.size_eq] at this

/-- A table that grows leaves a smaller gap. -/
theorem gap_lt_gap {n : Nat} (hu : u.Within n) (h : t ≤ u) (hne : t ≠ u) : u.gap < t.gap := by
  have hlt : t.total < u.total := by
    by_contra hle
    exact hne (eq_of_le_of_total_le h (Nat.le_of_not_lt hle))
  have hbound := hu.total_le
  rw [gap, gap, h.1]
  omega

/-! ## A pass -/

theorem add_of_size_le {i : Nat} (h : t.size ≤ i) (s : IndexSet) : t.add i s = t := by
  rw [add, List.modify_eq_self h]

theorem le_add (t : SetTable) (i : Nat) (s : IndexSet) : t ≤ t.add i s := by
  refine ⟨(size_add t i s).symm, fun j k hk => ?_⟩
  by_cases hi : i < t.size
  · exact (mem_get_add hi).mpr (Or.inl hk)
  · rwa [add_of_size_le (Nat.le_of_not_lt hi)]

/-- What a row holds after an addition it held before, or it was added there. -/
theorem mem_or_of_mem_get_add {i j k : Nat} {s : IndexSet} (hk : k ∈ (t.add i s).get j) :
    k ∈ t.get j ∨ i = j ∧ k ∈ s := by
  by_cases hi : i < t.size
  · exact (mem_get_add hi).mp hk
  · rw [add_of_size_le (Nat.le_of_not_lt hi)] at hk
    exact Or.inl hk

theorem get_add_of_ne {i j : Nat} (h : i ≠ j) (s : IndexSet) : (t.add i s).get j = t.get j :=
  IndexSet.subset_antisymm
    (fun _ hk => (mem_or_of_mem_get_add hk).resolve_right fun hij => h hij.1)
    ((le_add t i s).2 j)

theorem Within.add {n : Nat} (h : t.Within n) (i : Nat) {s : IndexSet} (hs : ∀ k ∈ s, k < n) :
    (t.add i s).Within n := by
  refine ⟨by rw [size_add, h.size_eq], fun j k hk => ?_⟩
  rcases mem_or_of_mem_get_add hk with hk | ⟨-, hk⟩
  · exact h.lt j k hk
  · exact hs k hk

variable {α : Type} {row : α → Nat} {gain : SetTable → α → IndexSet} {items : List α}

/-- Each item in turn adds its gain to its row. -/
def fill (row : α → Nat) (gain : SetTable → α → IndexSet) (items : List α) (t : SetTable) :
    SetTable :=
  items.foldl (fun t x => t.add (row x) (gain t x)) t

theorem fill_cons (x : α) (items : List α) (t : SetTable) :
    fill row gain (x :: items) t = fill row gain items (t.add (row x) (gain t x)) := rfl

theorem fill_induct {P : SetTable → Prop}
    (hadd : ∀ t, P t → ∀ x ∈ items, P (t.add (row x) (gain t x))) (h : P t) :
    P (fill row gain items t) := by
  induction items generalizing t with
  | nil => exact h
  | cons x items ih =>
    rw [fill_cons]
    exact ih (fun t ht y hy => hadd t ht y (List.mem_cons_of_mem x hy))
      (hadd t h x List.mem_cons_self)

theorem le_fill (row : α → Nat) (gain : SetTable → α → IndexSet) (items : List α)
    (t : SetTable) : t ≤ fill row gain items t :=
  fill_induct (P := (t ≤ ·)) (fun _ hu x _ => le_trans hu (le_add _ (row x) _)) (le_refl t)

theorem Within.fill {n : Nat} (hgain : ∀ t, t.Within n → ∀ x ∈ items, ∀ k ∈ gain t x, k < n)
    (h : t.Within n) : (fill row gain items t).Within n :=
  fill_induct (P := fun t => t.Within n) (fun u hu x hx => hu.add _ (hgain u hu x hx)) h

theorem gain_subset_of_fill_eq (h : fill row gain items t = t) {x : α} (hx : x ∈ items)
    (hrow : row x < t.size) : gain t x ⊆ t.get (row x) := by
  induction items with
  | nil => exact absurd hx List.not_mem_nil
  | cons y items ih =>
    -- the table stays as it is from the first addition on, since none takes anything away
    have hy : t.add (row y) (gain t y) = t := by
      refine le_antisymm ?_ (le_add t _ _)
      have := le_fill row gain items (t.add (row y) (gain t y))
      rwa [← fill_cons, h] at this
    rcases List.mem_cons.mp hx with rfl | hx
    · intro k hk
      have := (mem_get_add hrow).mpr (Or.inr ⟨rfl, hk⟩)
      rwa [hy] at this
    · rw [fill_cons, hy] at h
      exact ih h hx

/-! ## Repeated passes -/

theorem settle_fill_induct {P : SetTable → Prop}
    (hadd : ∀ t, P t → ∀ x ∈ items, P (t.add (row x) (gain t x))) (h : P t) :
    P (settle (fill row gain items) gap t).value :=
  settle_induct (fun _ hu => fill_induct hadd hu) h

theorem within_settle_fill {n : Nat}
    (hgain : ∀ t, t.Within n → ∀ x ∈ items, ∀ k ∈ gain t x, k < n) (h : t.Within n) :
    (settle (fill row gain items) gap t).value.Within n :=
  settle_induct (P := fun t : SetTable => t.Within n) (fun _ hu => hu.fill hgain) h

theorem le_settle_fill (row : α → Nat) (gain : SetTable → α → IndexSet) (items : List α)
    (t : SetTable) : t ≤ (settle (fill row gain items) gap t).value :=
  settle_induct (P := (t ≤ ·)) (fun _ hu => le_trans hu (le_fill row gain items _)) (le_refl t)

theorem fill_settle {n : Nat} (hgain : ∀ t, t.Within n → ∀ x ∈ items, ∀ k ∈ gain t x, k < n)
    (h : t.Within n) :
    fill row gain items (settle (fill row gain items) gap t).value =
      (settle (fill row gain items) gap t).value := by
  have hpass : ∀ u : SetTable, u.Within n → (fill row gain items u).Within n :=
    fun _ hu => hu.fill hgain
  have hstop : ∀ u : SetTable, u.Within n → ¬(fill row gain items u).gap < u.gap →
      fill row gain items u = u := fun u hu hle => by
    by_contra hne
    exact hle (gap_lt_gap (hpass u hu) (le_fill row gain items u) (Ne.symm hne))
  exact settle_fixed hpass hstop h

/-- In the table that repeated passes end at, each row holds what its items add. -/
theorem gain_subset_settle_fill {n : Nat}
    (hgain : ∀ t, t.Within n → ∀ x ∈ items, ∀ k ∈ gain t x, k < n) (h : t.Within n) {x : α}
    (hx : x ∈ items) (hrow : row x < n) :
    gain (settle (fill row gain items) gap t).value x ⊆
      (settle (fill row gain items) gap t).value.get (row x) := by
  refine gain_subset_of_fill_eq (fill_settle hgain h) hx ?_
  rwa [(within_settle_fill hgain h).size_eq]

end SetTable

end Lookahead
