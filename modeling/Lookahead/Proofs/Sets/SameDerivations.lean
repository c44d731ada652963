import Lookahead.Proofs.Sets.Follow

/-!
# The sets depend on derivations only

FIRST and FOLLOW say what can come first and next in derivations. So two grammars have the
same sets, number by number, if they number their symbols alike and each step of a
derivation of the one is a step of the other (`Grammar.SameDerivations`), however their
productions are written.
-/

namespace Lookahead

/-- Tables of one size with the same rows are the same. -/
theorem SetTable.ext_get {t u : SetTable} (hsize : t.size = u.size)
    (h : ∀ i, t.get i = u.get i) : t = u :=
  SetTable.le_antisymm ⟨hsize, fun i _ hk => h i ▸ hk⟩ ⟨hsize.symm, fun i _ hk => h i ▸ hk⟩

namespace Grammar

variable {g g' : Grammar} {s u : List Nat} {i k : Nat}

/-- The grammars have as many non-terminals and terminals, and expand strings alike. -/
structure SameDerivations (g g' : Grammar) : Prop where
  nonTerminals : g.nonTerminals.length = g'.nonTerminals.length
  terminals : g.terminals.length = g'.terminals.length
  expands : ∀ s u, g.Expands s u ↔ g'.Expands s u

/-- Markers in the right sides make no difference to derivations. -/
theorem Expands.of_unmarked (hsu : g.Expands s u) (h : ∀ p ∈ g.productions, ∃ q ∈ g'.productions,
    q.left = p.left ∧ unmarked q.right = unmarked p.right) : g'.Expands s u := by
  obtain ⟨front, back, hp⟩ := hsu
  obtain ⟨q, hq, hleft, hright⟩ := h _ hp
  rw [← hleft, ← hright]
  exact .intro front back hq

namespace SameDerivations

/-- Grammars expand strings alike if their productions are the same up to markers. -/
theorem of_unmarked (hn : g.nonTerminals.length = g'.nonTerminals.length)
    (ht : g.terminals.length = g'.terminals.length)
    (h : ∀ p ∈ g.productions, ∃ q ∈ g'.productions,
      q.left = p.left ∧ unmarked q.right = unmarked p.right)
    (h' : ∀ q ∈ g'.productions, ∃ p ∈ g.productions,
      p.left = q.left ∧ unmarked p.right = unmarked q.right) : SameDerivations g g' :=
  ⟨hn, ht, fun _ _ => ⟨(·.of_unmarked h), (·.of_unmarked h')⟩⟩

theorem symm (h : SameDerivations g g') : SameDerivations g' g :=
  ⟨h.nonTerminals.symm, h.terminals.symm, fun s u => (h.expands s u).symm⟩

theorem symbolCount_eq (h : SameDerivations g g') : g.symbolCount = g'.symbolCount := by
  rw [Grammar.symbolCount_eq, Grammar.symbolCount_eq, h.nonTerminals, h.terminals]

theorem isNonTerminal_iff (h : SameDerivations g g') : g.IsNonTerminal i ↔ g'.IsNonTerminal i := by
  rw [IsNonTerminal, IsNonTerminal, h.nonTerminals]

theorem isTerminal_iff (h : SameDerivations g g') : g.IsTerminal i ↔ g'.IsTerminal i := by
  rw [IsTerminal, IsTerminal, h.nonTerminals, h.symbolCount_eq]

theorem derives (h : SameDerivations g g') (hsu : g.Derives s u) : g'.Derives s u := by
  induction hsu with
  | refl => exact .refl _
  | head first _ ih => exact .head ((h.expands _ _).mp first) ih

theorem derives_iff (h : SameDerivations g g') : g.Derives s u ↔ g'.Derives s u :=
  ⟨h.derives, h.symm.derives⟩

theorem begins_iff (h : SameDerivations g g') : g.Begins s k ↔ g'.Begins s k := by
  simp only [Begins, h.isNonTerminal_iff, h.derives_iff]

theorem follows_iff (h : SameDerivations g g') : g.Follows i k ↔ g'.Follows i k := by
  simp only [Follows, h.isNonTerminal_iff, h.isTerminal_iff, h.derives_iff]

variable (h : SameDerivations g g') (hg : g.WellFormed) (hg' : g'.WellFormed)
include h hg hg'

theorem first_eq : g.first = g'.first := by
  refine SetTable.ext_get ?_ fun i => IndexSet.ext fun k => ?_
  · rw [g.within_first.size_eq, g'.within_first.size_eq, h.symbolCount_eq]
  · by_cases hi : i < g.symbolCount
    · have hin : g.InUse [i] := by simpa [InUse] using hi
      have hin' : g'.InUse [i] := by simpa [InUse, ← h.symbolCount_eq] using hi
      rw [← SetTable.mem_firstOf_singleton, ← SetTable.mem_firstOf_singleton,
        mem_firstOf_iff_begins hg hin, mem_firstOf_iff_begins hg' hin', h.begins_iff]
    · have hle : g.symbolCount ≤ i := Nat.le_of_not_lt hi
      rw [SetTable.get_eq_empty (g.within_first.size_eq ▸ hle),
        SetTable.get_eq_empty (by rwa [g'.within_first.size_eq, ← h.symbolCount_eq])]

theorem follow_eq : g.follow g.first = g'.follow g'.first := by
  refine SetTable.ext_get ?_ fun i => ?_
  · rw [g.within_follow.size_eq, g'.within_follow.size_eq, h.symbolCount_eq]
  · by_cases hi : g.IsNonTerminal i
    · refine IndexSet.ext fun k => ?_
      rw [mem_follow_iff_follows hg hi, mem_follow_iff_follows hg' (h.isNonTerminal_iff.mp hi),
        h.follows_iff]
    · rw [get_follow_of_not_isNonTerminal hg hi,
        get_follow_of_not_isNonTerminal hg' fun hi' => hi (h.isNonTerminal_iff.mpr hi')]

end SameDerivations

end Grammar

end Lookahead
