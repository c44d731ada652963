import Mathlib.Data.Finset.Card
import Mathlib.Logic.Function.Iterate
import Mathlib.Order.Interval.Finset.Nat
import Mathlib.Order.Monotone.Basic
import Lookahead.Proofs.Sets.Follow
import Lookahead.Sets.Loop

/-!
# How many passes it takes

The number of passes is linear in the number of non-terminals, whatever the productions are. Which
rows hold a given number after a pass follows from which rows held it before, and from what is
known of some other numbers (`SetTable.AgreeOn`). So the rows that hold it get more in every pass,
until they stay the same for good, and there are at most as many of them as there are non-terminals
(`SetTable.agreeOn_iterate`).

In FOLLOW, no number needs to know of another : `n` passes are enough for each, and one more
changes nothing. In FIRST, all others need to know where `ε` is. That is settled after `n` passes,
and the rest after another `n`.

A pass that is carried out one number at a time fills the table in the same way, and notes whether
it changed anything (`exists_round_eq`). So the loop comes to an end with the last of the passes
(`SettlesIn.repeatPasses_eq`).

`solve_passes_le` : the number of passes, what each of them does, and what they leave in the log.
-/

namespace Lookahead

open Grammar (start epsilon)

/-! ## Passes one by one -/

/-- Where repeated passes over the table `t` lead, and how. Each pass, carried out by `round`, comes
to an end and notes whether it changed anything. The table `limit` is there before the last of `n`
passes, which leaves it alone, as any further one would. -/
structure SettlesIn (round : SetTable → Option Progress) (pass : SetTable → SetTable)
    (t limit : SetTable) (n : Nat) : Prop where
  pos : 0 < n
  runs : ∀ j, ∃ s, round (pass^[j] t) = some s ∧ s.table = pass^[j + 1] t ∧
    (s.changed = true ↔ s.table ≠ pass^[j] t)
  keeps : ∀ j, pass^[j] t ≤ pass^[j + 1] t
  grows : ∀ j, j + 1 < n → (pass^[j] t).total < (pass^[j + 1] t).total
  rests : ∀ j, n ≤ j + 1 → pass^[j] t = limit

namespace SettlesIn

variable {round : SetTable → Option Progress} {pass : SetTable → SetTable} {t limit : SetTable}
  {n : Nat}

theorem tail (h : SettlesIn round pass t limit (n + 2)) :
    SettlesIn round pass (pass t) limit (n + 1) where
  pos := Nat.succ_pos n
  runs j := h.runs (j + 1)
  keeps j := h.keeps (j + 1)
  grows j hj := h.grows (j + 1) (Nat.succ_lt_succ hj)
  rests j hj := h.rests (j + 1) (Nat.succ_le_succ hj)

/-- Passes that settle come to an end, and each is in the log. -/
theorem repeatPasses_eq (h : SettlesIn round pass t limit n) (event : Nat → Event) (i : Nat)
    (log : List Event) : t.repeatPasses round event i log =
      some (limit, log ++ (List.range' i n).map event) := by
  obtain ⟨n, rfl⟩ := Nat.exists_eq_succ_of_ne_zero h.pos.ne'
  induction n generalizing t i log with
  | zero =>
    obtain ⟨s, hround, htable, hchanged⟩ := h.runs 0
    have hlimit : s.table = limit := htable.trans (h.rests 1 (by omega))
    have hstays : s.changed = false := by
      rw [← Bool.not_eq_true, hchanged, not_not, hlimit, h.rests 0 (by omega)]
    rw [SetTable.repeatPasses, show round t = some s from hround]
    simp [hstays, hlimit]
  | succ n ih =>
    obtain ⟨s, hround, htable, hchanged⟩ := h.runs 0
    have hgrows : s.changed = true := hchanged.mpr fun heq => by
      have := h.grows 0 (by omega)
      rw [← htable, heq] at this
      exact Nat.lt_irrefl _ this
    rw [SetTable.repeatPasses, show round t = some s from hround]
    simp only [hgrows, if_true]
    rw [show s.table = pass t from htable, ih (i + 1) _ h.tail, List.append_assoc]
    rfl

end SettlesIn

/-- All passes but the last make the gap smaller. -/
theorem exists_settle_eq {α : Type} (pass : α → α) (gap : α → Nat) (a : α) :
    ∃ n, settle pass gap a = ⟨pass^[n + 1] a, n + 1⟩ ∧
      (∀ j < n, gap (pass^[j + 1] a) < gap (pass^[j] a)) ∧
      ¬gap (pass^[n + 1] a) < gap (pass^[n] a) := by
  induction hn : gap a using Nat.strongRecOn generalizing a with
  | _ m ih =>
    by_cases h : gap (pass a) < gap a
    · obtain ⟨n, heq, hgain, hlast⟩ := ih _ (hn ▸ h) (pass a) rfl
      refine ⟨n + 1, ?_, fun j hj => ?_, hlast⟩
      · rw [settle_of_gain h, heq]
        rfl
      · cases j with
        | zero => exact h
        | succ j => exact hgain j (Nat.lt_of_succ_lt_succ hj)
    · exact ⟨0, settle_of_no_gain h, fun j hj => absurd hj (Nat.not_lt_zero j), h⟩

namespace SetTable

variable {t u : SetTable} {ks : Set Nat} {i k m : Nat}

/-! ## Tables that agree on some numbers -/

/-- The rows of the two tables hold the same of the numbers `ks`. -/
def AgreeOn (ks : Set Nat) (t u : SetTable) : Prop :=
  t.size = u.size ∧ ∀ k ∈ ks, ∀ i, k ∈ t.get i ↔ k ∈ u.get i

theorem AgreeOn.add {s s' : IndexSet} (h : AgreeOn ks t u) (hs : ∀ k ∈ ks, k ∈ s ↔ k ∈ s')
    (i : Nat) : AgreeOn ks (t.add i s) (u.add i s') := by
  refine ⟨by rw [size_add, size_add, h.1], fun k hk j => ?_⟩
  by_cases hi : i < t.size
  · rw [mem_get_add hi, mem_get_add (h.1 ▸ hi), h.2 k hk j, hs k hk]
  · have hle : t.size ≤ i := Nat.le_of_not_lt hi
    rw [add_of_size_le hle, add_of_size_le (h.1 ▸ hle), h.2 k hk j]

theorem AgreeOn.insert (h : AgreeOn {k} t u) (hks : AgreeOn ks t u) :
    AgreeOn (insert k ks) t u := by
  refine ⟨h.1, fun k' hk' => ?_⟩
  rcases Set.mem_insert_iff.mp hk' with rfl | hk'
  · exact h.2 k' rfl
  · exact hks.2 k' hk'

/-- Tables that agree on each number are the same. -/
theorem eq_of_agreeOn (h : ∀ k, AgreeOn {k} t u) : t = u :=
  le_antisymm ⟨(h 0).1, fun i k hk => ((h k).2 k rfl i).mp hk⟩
    ⟨(h 0).1.symm, fun i k hk => ((h k).2 k rfl i).mpr hk⟩

theorem get?_of_lt_size (h : i < t.size) : t.get? i = some (t.get i) := by
  rw [size] at h
  simp [get, get?, h]

theorem total_lt_total_of_gap_lt_gap (h : t ≤ u) (hgap : u.gap < t.gap) : t.total < u.total := by
  rw [gap, gap, h.1] at hgap
  omega

section Fill

variable {α : Type} {row : α → Nat} {gain : SetTable → α → IndexSet} {items : List α}

theorem AgreeOn.fill (hgain : ∀ t u, AgreeOn ks t u → ∀ x ∈ items, ∀ k ∈ ks,
    k ∈ gain t x ↔ k ∈ gain u x) (h : AgreeOn ks t u) :
    AgreeOn ks (fill row gain items t) (fill row gain items u) := by
  induction items generalizing t u with
  | nil => exact h
  | cons x items ih =>
    rw [fill_cons, fill_cons]
    exact ih (fun t u h y hy => hgain t u h y (List.mem_cons_of_mem x hy))
      (h.add (hgain t u h x List.mem_cons_self) (row x))

/-- A pass touches the rows of its items only. -/
theorem get_fill_of_forall_ne (h : ∀ x ∈ items, row x ≠ i) :
    (fill row gain items t).get i = t.get i :=
  fill_induct (P := fun u : SetTable => u.get i = t.get i)
    (fun _ hu x hx => (get_add_of_ne (h x hx) _).trans hu) rfl

/-! ## The rows that hold a number -/

/-- The rows among `rows` that hold `k`. -/
def holders (t : SetTable) (rows : Finset Nat) (k : Nat) : Finset Nat :=
  rows.filter fun i => k ∈ t.get i

theorem holders_subset {rows : Finset Nat} (h : t ≤ u) : t.holders rows k ⊆ u.holders rows k :=
  Finset.monotone_filter_right _ fun i _ => h.2 i k

/-- Where as many rows hold `k` before a pass and after it, they are the same rows. -/
theorem agreeOn_of_card_holders_eq {rows : Finset Nat} (hrow : ∀ x ∈ items, row x ∈ rows)
    (h : (t.holders rows k).card = ((fill row gain items t).holders rows k).card) :
    AgreeOn {k} t (fill row gain items t) := by
  have hle := le_fill row gain items t
  have heq := Finset.eq_of_subset_of_card_le (holders_subset hle) h.ge
  refine ⟨hle.1, fun k' hk' i => ?_⟩
  obtain rfl := Set.mem_singleton_iff.mp hk'
  by_cases hi : i ∈ rows
  · have := Finset.ext_iff.mp heq i
    simpa [holders, hi] using this
  · rw [get_fill_of_forall_ne]
    rintro x hx rfl
    exact hi (hrow x hx)

/-- Where the passes from `m` on keep the numbers `ks`, and `k` needs to know of these only, `k`
stays where it is after as many more passes as there are rows. -/
theorem agreeOn_iterate (ks : Set Nat) (m : Nat) (rows : Finset Nat)
    (hrow : ∀ x ∈ items, row x ∈ rows)
    (hgain : ∀ t u, AgreeOn (insert k ks) t u → ∀ x ∈ items, ∀ k' ∈ insert k ks,
      k' ∈ gain t x ↔ k' ∈ gain u x)
    (hks : ∀ j, m ≤ j → AgreeOn ks ((fill row gain items)^[j] t)
      ((fill row gain items)^[j + 1] t)) {j : Nat} (hj : m + rows.card ≤ j) :
    AgreeOn {k} ((fill row gain items)^[j] t) ((fill row gain items)^[j + 1] t) := by
  set table : Nat → SetTable := fun d => (fill row gain items)^[m + d] t with htable
  have hnext (d : Nat) : table (d + 1) = fill row gain items (table d) :=
    Function.iterate_succ_apply' _ _ _
  have hagree (d : Nat) (h : ((table d).holders rows k).card =
      ((table (d + 1)).holders rows k).card) : AgreeOn {k} (table d) (table (d + 1)) := by
    rw [hnext] at h ⊢
    exact agreeOn_of_card_holders_eq hrow h
  have hgrow (d : Nat) : ((table d).holders rows k).card ≤
      ((table (d + 1)).holders rows k).card := by
    rw [hnext]
    exact Finset.card_le_card (holders_subset (le_fill row gain items _))
  have hstay (d : Nat) (h : ((table d).holders rows k).card =
      ((table (d + 1)).holders rows k).card) : ((table (d + 1)).holders rows k).card =
        ((table (d + 2)).holders rows k).card := by
    -- the passes agree on all that `k` needs to know of, so they add it to the same rows
    have hboth : AgreeOn (insert k ks) (table (d + 1)) (table (d + 2)) := by
      rw [hnext, hnext (d + 1)]
      exact ((hagree d h).insert (hks (m + d) (Nat.le_add_right m d))).fill hgain
    exact congrArg Finset.card
      (Finset.filter_congr fun i _ => hboth.2 k (Set.mem_insert k ks) i)
  -- the number of rows that hold `k` grows until it stays, and there are `rows.card` at most
  have hlast {d : Nat} (hd : rows.card ≤ d) : ((table d).holders rows k).card =
      ((table rows.card).holders rows k).card :=
    Nat.stabilises_of_monotone (monotone_nat_of_le_succ hgrow)
      (fun d => Finset.card_filter_le _ _) hstay hd
  obtain ⟨d, rfl⟩ := Nat.exists_eq_add_of_le (Nat.le_of_add_right_le hj)
  have hd : rows.card ≤ d := Nat.le_of_add_le_add_left hj
  exact hagree d ((hlast hd).trans (hlast (Nat.le_succ_of_le hd)).symm)

/-- Where `k` needs to know of no other number, as many passes as there are rows are enough. -/
theorem agreeOn_iterate_self (rows : Finset Nat) (hrow : ∀ x ∈ items, row x ∈ rows)
    (hgain : ∀ t u, AgreeOn {k} t u → ∀ x ∈ items, k ∈ gain t x ↔ k ∈ gain u x) {j : Nat}
    (hj : rows.card ≤ j) :
    AgreeOn {k} ((fill row gain items)^[j] t) ((fill row gain items)^[j + 1] t) := by
  refine agreeOn_iterate ∅ 0 rows hrow (fun t u h x hx k' hk' => ?_)
    (fun j _ => ⟨?_, fun k' hk' => absurd hk' (Set.notMem_empty k')⟩) (by rwa [Nat.zero_add])
  · rw [insert_empty_eq] at h hk'
    obtain rfl := Set.mem_singleton_iff.mp hk'
    exact hgain t u h x hx
  · rw [Function.iterate_succ_apply']
    exact (le_fill row gain items _).1

/-- Where `m` passes lead, a further one changes nothing : then there are `m + 1` at most. -/
theorem exists_settlesIn_fill {n : Nat} {round : SetTable → Option Progress}
    (hround : ∀ t, t.Within n → ∃ s, round t = some s ∧ s.table = fill row gain items t ∧
      (s.changed = true ↔ s.table ≠ t))
    (hgain : ∀ t, t.Within n → ∀ x ∈ items, ∀ k ∈ gain t x, k < n) (h : t.Within n)
    (hm : (fill row gain items)^[m] t = (fill row gain items)^[m + 1] t) :
    ∃ N ≤ m + 1, (settle (fill row gain items) gap t).passes = N ∧
      SettlesIn round (fill row gain items) t (settle (fill row gain items) gap t).value N := by
  obtain ⟨d, heq, hgrow, hlast⟩ := exists_settle_eq (fill row gain items) gap t
  have hwithin (j : Nat) : ((fill row gain items)^[j] t).Within n :=
    Function.Iterate.rec (fun u : SetTable => u.Within n) h (fun _ hu => hu.fill hgain) j
  have hle (j : Nat) : (fill row gain items)^[j] t ≤ (fill row gain items)^[j + 1] t := by
    rw [Function.iterate_succ_apply']
    exact le_fill row gain items _
  have hruns (j : Nat) : ∃ s, round ((fill row gain items)^[j] t) = some s ∧
      s.table = (fill row gain items)^[j + 1] t ∧
      (s.changed = true ↔ s.table ≠ (fill row gain items)^[j] t) := by
    rw [Function.iterate_succ_apply']
    exact hround _ (hwithin j)
  -- the gap stays only if the table does
  have hd : (fill row gain items)^[d] t = (fill row gain items)^[d + 1] t := by
    by_contra hne
    exact hlast (gap_lt_gap (hwithin (d + 1)) (hle d) hne)
  rw [heq]
  refine ⟨d + 1, Nat.succ_le_succ (Nat.le_of_not_lt fun hlt => ?_), rfl, Nat.succ_pos d, hruns, hle,
    fun j hj => total_lt_total_of_gap_lt_gap (hle j) (hgrow j (Nat.lt_of_succ_lt_succ hj)),
    fun j hj => ?_⟩
  · have := hgrow m hlt
    rw [← hm] at this
    exact Nat.lt_irrefl _ this
  · obtain ⟨e, rfl⟩ := Nat.exists_eq_add_of_le' (Nat.le_of_succ_le_succ hj)
    rw [Function.iterate_succ_apply'] at hd
    rw [Function.iterate_add_apply, Function.iterate_fixed hd.symm, Function.iterate_succ_apply',
      ← hd]

end Fill

end SetTable

/-! ## Passes that put in one number at a time -/

namespace Progress

variable {s : Progress} {t : SetTable} {i k : Nat}

/-- The progress since the table was `t` : nothing is lost, and the mark says whether anything is
new. -/
structure Since (t : SetTable) (s : Progress) : Prop where
  le : t ≤ s.table
  changed_iff : s.changed = true ↔ s.table ≠ t

theorem Since.put (h : Since t s) (hi : i < t.size) (k : Nat) : Since t (s.put i k) := by
  have hsize : i < s.table.size := h.le.1 ▸ hi
  refine ⟨SetTable.le_trans h.le (SetTable.le_add _ _ _), ?_⟩
  by_cases hk : k ∈ s.table.get i
  · have htable : (s.put i k).table = s.table := by
      refine SetTable.le_antisymm ⟨SetTable.size_add _ _ _, fun j k' hk' => ?_⟩
        (SetTable.le_add _ _ _)
      rcases SetTable.mem_or_of_mem_get_add hk' with hk' | ⟨rfl, hnew⟩
      · exact hk'
      · obtain rfl := IndexSet.mem_single.mp hnew
        exact hk
    rw [htable, ← h.changed_iff]
    simp [Progress.put, hk]
  · have hnew : k ∈ (s.put i k).table.get i :=
      (SetTable.mem_get_add hsize).mpr (Or.inr ⟨rfl, IndexSet.mem_single.mpr rfl⟩)
    refine iff_of_true (by simp [Progress.put, hk]) ?_
    rintro rfl
    exact hk (h.le.2 i k hnew)

theorem Since.putAll (h : Since t s) (hi : i < t.size) (set : IndexSet) :
    Since t (s.putAll i set) :=
  List.foldlRecOn set.toList (Progress.put i) h fun _ hs k _ => hs.put hi k

theorem table_foldl_put (i : Nat) (ks : List Nat) (s : Progress) :
    (ks.foldl (put i) s).table = ⟨s.table.rows.modify i (ks.foldl IndexSet.insert)⟩ := by
  induction ks generalizing s with
  | nil => exact congrArg SetTable.mk (List.modify_id i _).symm
  | cons k ks ih =>
    rw [List.foldl_cons, ih]
    exact congrArg SetTable.mk (List.modify_modify_eq _ _ i _)

theorem table_putAll (i : Nat) (s : Progress) (set : IndexSet) :
    (s.putAll i set).table = s.table.add i set :=
  table_foldl_put i set.toList s

end Progress

section Round

variable {α : Type} {row : α → Nat} {gain? : SetTable → α → Option IndexSet} {items : List α}
  {t : SetTable}

/-- A pass that finds all it reads fills the table, and notes whether the table has changed. -/
theorem exists_round_eq (gain : SetTable → α → IndexSet) (hrow : ∀ x ∈ items, row x < t.size)
    (hgain : ∀ u : SetTable, u.size = t.size → ∀ x ∈ items, gain? u x = some (gain u x)) :
    ∃ s, t.round row gain? items = some s ∧ s.table = SetTable.fill row gain items t ∧
      (s.changed = true ↔ s.table ≠ t) := by
  suffices hfold : ∀ s : Progress, s.Since t →
      ∃ s', items.foldlM (Progress.addGain row gain?) s = some s' ∧
        s'.table = SetTable.fill row gain items s.table ∧ s'.Since t by
    obtain ⟨s, hround, htable, hsince⟩ := hfold ⟨t, false⟩ ⟨SetTable.le_refl t, by simp⟩
    exact ⟨s, hround, htable, hsince.changed_iff⟩
  induction items with
  | nil => exact fun s hs => ⟨s, rfl, rfl, hs⟩
  | cons x items ih =>
    intro s hs
    have hx := hrow x List.mem_cons_self
    have hread := SetTable.get?_of_lt_size (hs.le.1 ▸ hx)
    obtain ⟨s', hrest, htable, hsince⟩ := ih (fun y hy => hrow y (List.mem_cons_of_mem x hy))
      (fun u hu y hy => hgain u hu y (List.mem_cons_of_mem x hy)) _
      (hs.putAll hx (gain s.table x))
    rw [Progress.table_putAll, ← SetTable.fill_cons] at htable
    refine ⟨s', ?_, htable, hsince⟩
    rw [List.foldlM_cons, Progress.addGain, hgain s.table hs.le.1.symm x List.mem_cons_self, hread]
    exact hrest

end Round

/-! ## The passes for FIRST -/

namespace SetTable

variable {t u : SetTable} {ks : Set Nat} {k : Nat}

theorem AgreeOn.mem_firstOf_iff (h : AgreeOn ks t u) (hepsilon : epsilon ∈ ks) (hk : k ∈ ks)
    (s : List Nat) : k ∈ t.firstOf s ↔ k ∈ u.firstOf s := by
  induction s with
  | nil => rfl
  | cons i s ih =>
    rw [mem_firstOf_cons, mem_firstOf_cons, ih, h.2 k hk, IsNullable, IsNullable,
      h.2 _ hepsilon]

end SetTable

namespace Grammar

variable {g : Grammar} {k : Nat}

/-- The numbers of the non-terminals. -/
def nonTerminalSet (g : Grammar) : Finset Nat :=
  Finset.Ico start (start + g.nonTerminals.length)

theorem mem_nonTerminalSet {i : Nat} : i ∈ g.nonTerminalSet ↔ g.IsNonTerminal i :=
  Finset.mem_Ico

theorem card_nonTerminalSet (g : Grammar) : g.nonTerminalSet.card = g.nonTerminals.length := by
  rw [nonTerminalSet, Nat.card_Ico, Nat.add_sub_cancel_left]

theorem left_mem_nonTerminalSet {p : Production} (hp : p ∈ g.productions) :
    p.left ∈ g.nonTerminalSet :=
  mem_nonTerminalSet.mpr (g.isNonTerminal_of_mem_productions hp)

/-- After `n` passes it is settled which non-terminals can derive nothing. -/
theorem agreeOn_epsilon_firstPass {j : Nat} (hj : g.nonTerminals.length ≤ j) (t : SetTable) :
    SetTable.AgreeOn {epsilon} (g.firstPass^[j] t) (g.firstPass^[j + 1] t) := by
  refine SetTable.agreeOn_iterate_self g.nonTerminalSet (fun _ => left_mem_nonTerminalSet)
    (fun t u h p _ => h.mem_firstOf_iff rfl rfl p.right) ?_
  rwa [card_nonTerminalSet]

theorem agreeOn_firstPass {j : Nat} (hj : 2 * g.nonTerminals.length ≤ j) (t : SetTable) (k : Nat) :
    SetTable.AgreeOn {k} (g.firstPass^[j] t) (g.firstPass^[j + 1] t) := by
  refine SetTable.agreeOn_iterate {epsilon} g.nonTerminals.length g.nonTerminalSet
    (fun _ => left_mem_nonTerminalSet)
    (fun t u h p _ k hk => h.mem_firstOf_iff (Set.mem_insert_of_mem _ rfl) hk p.right)
    (fun j hj => agreeOn_epsilon_firstPass hj t) ?_
  rwa [card_nonTerminalSet, ← Nat.two_mul]

/-! ## The passes for FOLLOW -/

theorem agreeOn_followPass (first : SetTable) {j : Nat} (hj : g.nonTerminals.length ≤ j)
    (t : SetTable) (k : Nat) :
    SetTable.AgreeOn {k} ((g.followPass first)^[j] t) ((g.followPass first)^[j + 1] t) := by
  refine SetTable.agreeOn_iterate_self g.nonTerminalSet
    (fun o ho => mem_nonTerminalSet.mpr (g.mem_occurrences.mp ho).1) (fun t u h o _ => ?_) ?_
  · rw [mem_followAt, mem_followAt, h.2 k rfl]
  · rwa [card_nonTerminalSet]

/-! ## Both solvers -/

theorem exists_firstRound_eq (hg : g.WellFormed) {t : SetTable} (ht : t.Within g.symbolCount) :
    ∃ s, g.firstRound t = some s ∧ s.table = g.firstPass t ∧ (s.changed = true ↔ s.table ≠ t) := by
  refine exists_round_eq (fun t (p : Production) => t.firstOf p.right) (fun p hp => ?_)
    fun u hu p hp => SetTable.firstOf?_eq_some fun i hi => ?_
  · rw [ht.size_eq]
    exact (g.isNonTerminal_of_mem_productions hp).lt_symbolCount
  · rw [hu, ht.size_eq]
    exact hg.lt_of_mem_right p hp i hi

theorem followAt?_eq_some {first t : SetTable} {o : Occurrence}
    (hrest : ∀ i ∈ o.rest, i < first.size) (hleft : t.get? o.left = some (t.get o.left)) :
    followAt? first t o = some (followAt first t o) := by
  rw [followAt?, SetTable.firstOf?_eq_some hrest, followAt]
  by_cases h : epsilon ∈ first.firstOf o.rest <;> simp [h, hleft]

theorem exists_followRound_eq (hg : g.WellFormed) {t : SetTable} (ht : t.Within g.symbolCount) :
    ∃ s, g.followRound g.first t = some s ∧ s.table = g.followPass g.first t ∧
      (s.changed = true ↔ s.table ≠ t) := by
  refine exists_round_eq (followAt g.first) (fun o ho => ?_) fun u hu o ho => ?_
  · rw [ht.size_eq]
    exact (g.mem_occurrences.mp ho).1.lt_symbolCount
  · obtain ⟨-, front, hp⟩ := g.mem_occurrences.mp ho
    have hleft : o.left < u.size := by
      rw [hu, ht.size_eq]
      exact (g.isNonTerminal_of_mem_productions hp).lt_symbolCount
    refine followAt?_eq_some (fun i hi => ?_) (SetTable.get?_of_lt_size hleft)
    rw [g.within_first.size_eq]
    exact hg.lt_of_mem_right _ hp i (by simp [hi])

theorem solveFirst_eq (hg : g.WellFormed) : g.solveFirst =
    some (g.first, .firstSets :: passEvents .firstPass g.firstLimit.passes) := by
  obtain ⟨N, -, hpasses, hfirst⟩ := SetTable.exists_settlesIn_fill
    (fun _ => exists_firstRound_eq hg) (fun t ht p _ k hk => lt_of_mem_firstOf ht hk)
    g.within_firstStart
    (SetTable.eq_of_agreeOn (agreeOn_firstPass (Nat.le_refl _) g.firstStart))
  obtain rfl : g.firstLimit.passes = N := hpasses
  exact hfirst.repeatPasses_eq _ _ _

theorem solveFollow_eq (hg : g.WellFormed) : g.solveFollow g.first =
    some (g.follow g.first, .followSets :: passEvents .followPass (g.followLimit g.first).passes) := by
  obtain ⟨M, -, hpasses, hfollow⟩ := SetTable.exists_settlesIn_fill
    (fun _ => exists_followRound_eq hg) (fun t ht o _ k hk => lt_of_mem_followAt ht hk)
    g.within_followStart
    (SetTable.eq_of_agreeOn (agreeOn_followPass g.first (Nat.le_refl _) g.followStart))
  obtain rfl : (g.followLimit g.first).passes = M := hpasses
  exact hfollow.repeatPasses_eq _ _ _

/-- Both solvers come to an end, with the sets of the grammar. With `n` non-terminals, whatever
their productions, the passes for FIRST are `2 * n + 1` at most, and those for FOLLOW `n + 1`. Every
pass but the last makes the table larger, none takes anything away, and neither the last nor any
further one changes it. The log numbers the passes from 1. -/
theorem solve_passes_le {rules : List Rule} (h : ofRules rules = .ok g) : ∃ N M,
    N ≤ 2 * g.nonTerminals.length + 1 ∧ M ≤ g.nonTerminals.length + 1 ∧
    g.solveFirst = some (g.first, .firstSets :: passEvents .firstPass N) ∧
    SettlesIn g.firstRound g.firstPass g.firstStart g.first N ∧
    g.solveFollow g.first = some (g.follow g.first, .followSets :: passEvents .followPass M) ∧
    SettlesIn (g.followRound g.first) (g.followPass g.first) g.followStart (g.follow g.first) M ∧
    g.analysis.events = (.firstSets :: passEvents .firstPass N) ++
      (.followSets :: passEvents .followPass M) := by
  have hg := wellFormed_of_ofRules h
  obtain ⟨N, hN, hpasses, hfirst⟩ := SetTable.exists_settlesIn_fill
    (fun _ => exists_firstRound_eq hg) (fun t ht p _ k hk => lt_of_mem_firstOf ht hk)
    g.within_firstStart
    (SetTable.eq_of_agreeOn (agreeOn_firstPass (Nat.le_refl _) g.firstStart))
  obtain ⟨M, hM, hpasses', hfollow⟩ := SetTable.exists_settlesIn_fill
    (fun _ => exists_followRound_eq hg) (fun t ht o _ k hk => lt_of_mem_followAt ht hk)
    g.within_followStart
    (SetTable.eq_of_agreeOn (agreeOn_followPass g.first (Nat.le_refl _) g.followStart))
  refine ⟨N, M, hN, hM, hfirst.repeatPasses_eq _ _ _, hfirst, hfollow.repeatPasses_eq _ _ _,
    hfollow, ?_⟩
  rw [← hpasses, ← hpasses']
  rfl

/-- A non-terminal that can vanish in front of a terminal. -/
def vanishingRules : List Rule :=
  [⟨"S", [["S", "a"], ["ε"]]⟩]

/-- The grammar of `vanishingRules`. -/
def vanishingGrammar : Grammar :=
  ⟨[⟨"S", [[2, 3], [0]]⟩], ["a"]⟩

/-- With one non-terminal, there may be as many as three passes for FIRST and two for FOLLOW. -/
theorem solve_passes_vanishing : ofRules vanishingRules = .ok vanishingGrammar ∧
    vanishingGrammar.solveFirst = some (vanishingGrammar.first,
      [.firstSets, .firstPass 1, .firstPass 2, .firstPass 3]) ∧
    vanishingGrammar.solveFollow vanishingGrammar.first =
      some (vanishingGrammar.follow vanishingGrammar.first,
        [.followSets, .followPass 1, .followPass 2]) := by
  have hok : ofRules vanishingRules = .ok vanishingGrammar := rfl
  obtain ⟨N, M, hN, hM, hfirst, hsettles, hfollow, hsettles', -⟩ := solve_passes_le hok
  have htwo : ¬N ≤ 2 := fun hle => absurd (hsettles.rests 1 hle) (by decide +kernel)
  have hone : ¬M ≤ 1 := fun hle => absurd (hsettles'.rests 0 hle) (by decide +kernel)
  obtain rfl : N = 3 := Nat.le_antisymm hN (Nat.lt_of_not_le htwo)
  obtain rfl : M = 2 := Nat.le_antisymm hM (Nat.lt_of_not_le hone)
  exact ⟨hok, hfirst, hfollow⟩

end Grammar

end Lookahead
