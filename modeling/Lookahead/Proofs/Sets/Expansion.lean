import Lookahead.Proofs.Grammar.Spelling
import Lookahead.Proofs.LeftCorner.LeftRecursive

/-!
# FIRST of a string with a symbol expanded

A non-terminal can be replaced by its right sides, wherever it stands in a string : FIRST of the
string is what FIRST of the expanded strings comes to together (`firstOf?_expanded`). No symbol gets
lost and none is added, as FIRST of a non-terminal is made up of FIRST of its right sides exactly
(`mem_get_first_iff_exists_right`). That it holds each of them was said by the last pass. That it
holds no more follows from its derivations, which all start with a production.

* `SetTable.firstOf_append` : FIRST of two strings in a row.
* `SetTable.mem_firstOf_splice` : what holds of FIRST of a string, holds of it in the middle of
  another.
-/

namespace Lookahead

open Grammar (epsilon unmarked)

namespace IndexSet

/-- The members of all sets of the list. -/
def unionAll (sets : List IndexSet) : IndexSet :=
  sets.foldr (· ∪ ·) ∅

theorem mem_unionAll {sets : List IndexSet} {k : Nat} :
    k ∈ unionAll sets ↔ ∃ set ∈ sets, k ∈ set := by
  induction sets with
  | nil => simp [unionAll]
  | cons set sets ih =>
    show k ∈ set ∪ unionAll sets ↔ _
    rw [mem_union, ih, List.exists_mem_cons_iff]

end IndexSet

namespace SetTable

variable {t : SetTable} {k : Nat} {s : List Nat}

theorem firstOf_append (t : SetTable) (x y : List Nat) : t.firstOf (x ++ y) =
    if epsilon ∈ t.firstOf x then (t.firstOf x).erase epsilon ∪ t.firstOf y else t.firstOf x := by
  ext k
  rw [mem_firstOf_append]
  split
  · next h => rw [IndexSet.mem_union, IndexSet.mem_erase, and_iff_right h]
  · next h =>
    rw [or_iff_left fun hxy => h hxy.1, and_iff_left_iff_imp]
    rintro hk rfl
    exact h hk

/-- If some strings have FIRST of `s` together, they have it in the middle of a string as well. -/
theorem mem_firstOf_splice {parts : List (List Nat)} (hne : parts ≠ [])
    (h : ∀ k, k ∈ t.firstOf s ↔ ∃ part ∈ parts, k ∈ t.firstOf part) (x y : List Nat) :
    k ∈ t.firstOf (x ++ s ++ y) ↔ ∃ part ∈ parts, k ∈ t.firstOf (x ++ part ++ y) := by
  obtain ⟨first, hfirst⟩ := List.exists_mem_of_ne_nil parts hne
  simp only [mem_firstOf_append, h]
  constructor
  · rintro (⟨⟨hk, hx⟩ | ⟨hx, part, hpart, hk⟩, hne⟩ | ⟨⟨-, hx⟩ | ⟨hx, part, hpart, hs⟩, hk⟩)
    · exact ⟨first, hfirst, Or.inl ⟨Or.inl ⟨hk, hx⟩, hne⟩⟩
    · exact ⟨part, hpart, Or.inl ⟨Or.inr ⟨hx, hk⟩, hne⟩⟩
    · exact absurd rfl hx
    · exact ⟨part, hpart, Or.inr ⟨Or.inr ⟨hx, hs⟩, hk⟩⟩
  · rintro ⟨part, hpart, ⟨⟨hk, hx⟩ | ⟨hx, hk⟩, hne⟩ | ⟨⟨-, hx⟩ | ⟨hx, hs⟩, hk⟩⟩
    · exact Or.inl ⟨Or.inl ⟨hk, hx⟩, hne⟩
    · exact Or.inl ⟨Or.inr ⟨hx, part, hpart, hk⟩, hne⟩
    · exact absurd rfl hx
    · exact Or.inr ⟨Or.inr ⟨hx, part, hpart, hs⟩, hk⟩

end SetTable

namespace Grammar

variable {g : Grammar} {i k : Nat} {x y : List Nat}

/-- What a non-terminal begins with, one of its right sides begins with. -/
theorem Begins.exists_right (h : g.Begins [i] k) (hi : g.IsNonTerminal i) :
    ∃ right ∈ g.alternatives i, g.Begins (unmarked right) k := by
  have hexpand {u : List Nat} (hu : g.Derives [i] u) (hne : u ≠ [i]) :
      ∃ right ∈ g.alternatives i, g.Derives (unmarked right) u := by
    cases hu with
    | refl => exact absurd rfl hne
    | head first rest =>
      obtain ⟨p, hp, rfl, rfl⟩ := exists_production_of_expands_singleton first
      exact ⟨p.right, g.mem_productions.mp hp, rest⟩
  rcases h with ⟨rfl, hd⟩ | ⟨hne, hk, rest, hd⟩
  · obtain ⟨right, hright, hd⟩ := hexpand hd (List.cons_ne_nil _ _).symm
    exact ⟨right, hright, Or.inl ⟨rfl, hd⟩⟩
  · have hfront : k :: rest ≠ [i] := fun heq => hk ((List.cons.inj heq).1 ▸ hi)
    obtain ⟨right, hright, hd⟩ := hexpand hd hfront
    exact ⟨right, hright, Or.inr ⟨hne, hk, rest, hd⟩⟩

/-- FIRST of a non-terminal is FIRST of its right sides together. -/
theorem mem_get_first_iff_exists_right (hg : g.WellFormed) (hi : g.IsNonTerminal i) :
    k ∈ g.first.get i ↔ ∃ right ∈ g.alternatives i, k ∈ g.first.firstOf right := by
  constructor
  · intro hk
    obtain ⟨right, hright, hbegins⟩ := ((mem_get_first_iff_begins hg hi).mp hk).exists_right hi
    exact ⟨right, hright,
      (mem_firstOf_iff_begins hg (hg.inUse_of_mem_alternatives hright)).mpr hbegins⟩
  · rintro ⟨right, hright, hk⟩
    exact firstOf_right_subset (p := ⟨i, right⟩) (g.mem_productions.mpr hright) k hk

/-- Where a non-terminal with an alternative stands in a string over the numbers in use, FIRST of
the string is the union of FIRST of the strings with an alternative in its place. FIRST of two such
strings in a row is that of the first, if it does not hold `ε`. Otherwise it is the first without
`ε`, together with the second. -/
theorem firstOf?_expanded {rules : List Rule} (h : ofRules rules = .ok g) :
    (∀ i x y, g.IsNonTerminal i → g.alternatives i ≠ [] → g.InUse x → g.InUse y →
      ∃ sets, (g.alternatives i).mapM (fun right => g.first.firstOf? (x ++ right ++ y)) = some sets ∧
        g.first.firstOf? (x ++ [i] ++ y) = some (IndexSet.unionAll sets)) ∧
    ∀ x y, g.InUse x → g.InUse y → ∃ set set', g.first.firstOf? x = some set ∧
      g.first.firstOf? y = some set' ∧ g.first.firstOf? (x ++ y) =
        some (if epsilon ∈ set then set.erase epsilon ∪ set' else set) := by
  have hg := wellFormed_of_ofRules h
  refine ⟨fun i x y hi hne hx hy => ?_, fun x y hx hy => ?_⟩
  · have hin : g.InUse [i] := by simpa [InUse] using hi.lt_symbolCount
    refine ⟨(g.alternatives i).map fun right => g.first.firstOf (x ++ right ++ y),
      mapM_eq_some_map fun right hright => firstOf?_first
        ((hx.append (hg.inUse_of_mem_alternatives hright)).append hy), ?_⟩
    rw [firstOf?_first ((hx.append hin).append hy)]
    congr 1
    ext k
    rw [SetTable.mem_firstOf_splice hne fun k => SetTable.mem_firstOf_singleton.trans
      (mem_get_first_iff_exists_right hg hi), IndexSet.mem_unionAll]
    simp only [List.mem_map, exists_exists_and_eq_and]
  · exact ⟨_, _, firstOf?_first hx, firstOf?_first hy,
      by rw [firstOf?_first (hx.append hy), SetTable.firstOf_append]⟩

/-- Between a symbol that can vanish and `b`, the non-terminal `S` is expanded in three ways. With
`B`, which derives nothing, the string begins with nothing. -/
theorem firstOf?_expanded_hidden : ofRules hiddenRules = .ok hiddenGrammar ∧
    (hiddenGrammar.alternatives 2).mapM
      (fun right => hiddenGrammar.first.firstOf? ([3] ++ right ++ [5])) =
        some [.single 6, .single 6, ∅] ∧
    hiddenGrammar.first.firstOf? ([3] ++ [2] ++ [5]) =
      some (IndexSet.unionAll [.single 6, .single 6, ∅]) ∧
    ∃ set set', hiddenGrammar.first.firstOf? [3] = some set ∧
      hiddenGrammar.first.firstOf? [2, 5] = some set' ∧ epsilon ∈ set ∧
      hiddenGrammar.first.firstOf? ([3] ++ [2, 5]) = some (set.erase epsilon ∪ set') := by
  have hok : ofRules hiddenRules = .ok hiddenGrammar := rfl
  have hsets : (hiddenGrammar.alternatives 2).mapM
      (fun right => hiddenGrammar.first.firstOf? ([3] ++ right ++ [5])) =
        some [.single 6, .single 6, ∅] := by
    decide +kernel
  obtain ⟨hexpand, happend⟩ := firstOf?_expanded hok
  obtain ⟨sets, heq, hunion⟩ := hexpand 2 [3] [5] (by decide) (by decide) (by decide) (by decide)
  obtain rfl := Option.some.inj (hsets.symm.trans heq)
  obtain ⟨set, set', hset, hset', htwo⟩ := happend [3] [2, 5] (by decide) (by decide)
  have hvanish : epsilon ∈ set := by
    have hfirst : hiddenGrammar.first.firstOf? [3] = some (.single epsilon) := by decide +kernel
    obtain rfl := Option.some.inj (hfirst.symm.trans hset)
    exact IndexSet.mem_single.mpr rfl
  rw [if_pos hvanish] at htwo
  exact ⟨hok, hsets, hunion, set, set', hset, hset', hvanish, htwo⟩

end Grammar

end Lookahead
