import Mathlib.Data.Fintype.Card
import Mathlib.Data.Set.Finite.Basic
import Lookahead.Proofs.Grammar.RuleLines
import Lookahead.Proofs.LeftCorner.LeftRecursive
import Lookahead.Proofs.LeftCorner.Links
import Lookahead.Proofs.Sets.Follow

/-!
# Sets without members

A set can be empty : nothing comes first in a non-terminal that derives no string of terminals, and
left recursion alone can be the reason. Where every non-terminal has an alternative, no left corner
leads back to itself, and only what cannot vanish stands in front of others, every FIRST set has a
member. The left corners of a grammar without cycles are well founded
(`leftEdge_induction`), and each left corner passes on what it has (`exists_mem_get_first`).

From there FOLLOW fills up along the productions. The end comes next to the start symbol. Next to a
symbol on the right comes what the rest begins with or, if the rest can vanish, what comes next to
the left side (`exists_mem_get_follow`).
-/

namespace Lookahead

open Relation
open Grammar (start epsilon endMark)

/-- A set that is not empty has a member. -/
theorem IndexSet.ne_empty_iff {set : IndexSet} : set ≠ ∅ ↔ ∃ k, k ∈ set := by
  rw [← not_iff_not, not_ne_iff, not_exists]
  exact ⟨fun h k => h ▸ not_mem_empty k, fun h => ext fun k => iff_of_false (h k) (not_mem_empty k)⟩

/-- FIRST of a string has a member if FIRST of each of its symbols has. -/
theorem SetTable.exists_mem_firstOf {t : SetTable} {s : List Nat}
    (h : ∀ i ∈ s, ∃ k, k ∈ t.get i) : ∃ k, k ∈ t.firstOf s := by
  induction s with
  | nil => exact ⟨epsilon, by simp⟩
  | cons i s ih =>
    obtain ⟨k, hk⟩ := h i List.mem_cons_self
    by_cases hnull : t.IsNullable i
    · obtain ⟨l, hl⟩ := ih fun j hj => h j (List.mem_cons_of_mem _ hj)
      exact ⟨l, mem_firstOf_cons.mpr (Or.inr ⟨hnull, hl⟩)⟩
    · have hne : k ≠ epsilon := by
        rintro rfl
        exact hnull hk
      exact ⟨k, mem_firstOf_cons.mpr (Or.inl ⟨hk, hne⟩)⟩

namespace Grammar

variable {g : Grammar} {i j : Nat} {s : List Nat}

/-! ## Alternatives -/

/-- Every non-terminal has an alternative. -/
def HasAlternatives (g : Grammar) : Prop :=
  ∀ nt ∈ g.nonTerminals, nt.productions ≠ []

instance (g : Grammar) : Decidable g.HasAlternatives :=
  inferInstanceAs (Decidable (∀ nt ∈ g.nonTerminals, _))

theorem HasAlternatives.exists_production (h : g.HasAlternatives) (hi : g.IsNonTerminal i) :
    ∃ p ∈ g.productions, p.left = i := by
  obtain ⟨nt, -, hnt⟩ := symbol?_of_isNonTerminal hi
  have hmem : nt ∈ g.nonTerminals := by
    rw [nonTerminal?, if_pos hi.1] at hnt
    exact List.mem_of_getElem? hnt
  obtain ⟨right, hright⟩ := List.exists_mem_of_ne_nil _ (h nt hmem)
  refine ⟨⟨i, right⟩, g.mem_productions.mpr ?_, rfl⟩
  rwa [alternatives, hnt]

/-- Lines give each of their non-terminals an alternative, if only an empty one. -/
theorem hasAlternatives_of_ofLines {lines : List (List Char)} (h : ofLines lines = .ok g) :
    g.HasAlternatives := by
  obtain ⟨rules, hrules, hok⟩ := ofLines_eq_ok_iff.mp h
  intro nt hnt hnil
  rw [(ofRules_eq_ok hok).2.1, List.mem_map] at hnt
  obtain ⟨left, hleft, rfl⟩ := hnt
  exact Rules.alternativesFor_ne_nil (exists_isStatedBy hrules) hleft (List.map_eq_nil_iff.mp hnil)

/-- The non-terminal `j` stands in an alternative of `i`. -/
def Uses (g : Grammar) (i j : Nat) : Prop :=
  g.IsNonTerminal j ∧ ∃ right ∈ g.alternatives i, j ∈ right

/-! ## What comes first -/

/-- Without cycles, what holds of a non-terminal if it holds of its left corners, holds of all. -/
theorem leftEdge_induction {P : Nat → Prop} (hacyclic : ∀ i, ¬TransGen g.LeftEdge i i)
    (step : ∀ i, g.IsNonTerminal i → (∀ j, g.LeftEdge i j → P j) → P i)
    (hi : g.IsNonTerminal i) : P i := by
  let Below (j i : {i // g.IsNonTerminal i}) : Prop := TransGen g.LeftEdge i j
  have : Finite {i // g.IsNonTerminal i} :=
    (Set.finite_lt_nat g.symbolCount).subset fun i hi => IsNonTerminal.lt_symbolCount hi
  have : IsTrans _ Below := ⟨fun _ _ _ hkj hji => hji.trans hkj⟩
  have : Std.Irrefl Below := ⟨fun i => hacyclic i⟩
  have hwf : WellFounded Below := Finite.wellFounded_of_trans_of_irrefl Below
  suffices h : ∀ i : {i // g.IsNonTerminal i}, P i from h ⟨i, hi⟩
  intro i
  induction i using hwf.induction with
  | _ i ih => exact step i i.2 fun j hj => ih ⟨j, hj.1⟩ (.single hj)

section

variable (hg : g.WellFormed) (halt : g.HasAlternatives) (hnone : g.leftRecursion? = none)
  (hsolid : g.SolidFronts)
include hg halt hnone hsolid

/-- FIRST of every symbol has a member. -/
theorem exists_mem_get_first (hi : i < g.symbolCount) : ∃ k, k ∈ g.first.get i := by
  have hself {i : Nat} (hi : i < g.symbolCount) (hn : ¬g.IsNonTerminal i) :
      ∃ k, k ∈ g.first.get i :=
    ⟨i, get_first_of_not_isNonTerminal hi hn ▸ IndexSet.mem_single.mpr rfl⟩
  by_cases hn : g.IsNonTerminal i
  case neg => exact hself hi hn
  refine leftEdge_induction (P := fun i => ∃ k, k ∈ g.first.get i)
    (leftRecursion?_eq_none_iff.mp hnone) (fun i hn ih => ?_) hn
  obtain ⟨p, hp, rfl⟩ := halt.exists_production hn
  have hsub := firstOf_right_subset hp
  cases hright : p.right with
  | nil => exact ⟨epsilon, hsub _ (by simp [hright])⟩
  | cons j rest =>
    have hhead : p.right.head? = some j := by rw [hright]; rfl
    obtain ⟨k, hk⟩ : ∃ k, k ∈ g.first.get j := by
      by_cases hj : g.IsNonTerminal j
      · exact ih j (leftEdge_iff.mpr ⟨hj, p, hp, rfl, hhead⟩)
      · exact hself (hg.lt_of_mem_right p hp j (by simp [hright])) hj
    refine ⟨k, hsub k ?_⟩
    rw [hright]
    cases rest with
    | nil => exact SetTable.mem_firstOf_singleton.mpr hk
    | cons l rest =>
      have hne : k ≠ epsilon := by
        rintro rfl
        exact hsolid p hp (by simp [hright]) j hhead hk
      exact SetTable.mem_firstOf_cons.mpr (Or.inl ⟨hk, hne⟩)

theorem exists_mem_firstOf (hs : g.InUse s) : ∃ k, k ∈ g.first.firstOf s :=
  SetTable.exists_mem_firstOf fun i hi => exists_mem_get_first hg halt hnone hsolid (hs i hi)

/-! ## What comes next -/

/-- FOLLOW of every non-terminal that the start symbol leads to has a member. -/
theorem exists_mem_get_follow (hi : ReflTransGen g.Uses start i) :
    ∃ k, k ∈ (g.follow g.first).get i := by
  induction hi with
  | refl => exact ⟨endMark, endMark_mem_follow_start hg⟩
  | @tail i j _ huses ih =>
    obtain ⟨hj, right, hright, hmem⟩ := huses
    obtain ⟨front, rest, rfl⟩ := List.append_of_mem hmem
    have hp : (⟨i, front ++ j :: rest⟩ : Production) ∈ g.productions :=
      g.mem_productions.mpr hright
    have ho : (⟨i, j, rest⟩ : Occurrence) ∈ g.occurrences := g.mem_occurrences.mpr ⟨hj, front, hp⟩
    have hsub := followAt_subset ho
    obtain ⟨k, hk⟩ := exists_mem_firstOf hg halt hnone hsolid (s := rest) fun l hl =>
      hg.lt_of_mem_right _ hp l (by simp [hl])
    by_cases hne : k = epsilon
    · -- the rest can vanish, so that all that follows the left side follows
      subst hne
      obtain ⟨l, hl⟩ := ih
      exact ⟨l, hsub l (mem_followAt.mpr (Or.inr ⟨hk, hl⟩))⟩
    · exact ⟨k, hsub k (mem_followAt.mpr (Or.inl ⟨hk, hne⟩))⟩

end

/-- The grammar of lines has an alternative for every non-terminal. Of any grammar of rules that has,
without left recursion that is reported and with solid fronts, the analysis is not refused. In it
FIRST of every non-terminal and of every string of numbers in use has a member, and so has FOLLOW of
every non-terminal that the start symbol leads to. -/
theorem sets_nonempty :
    (∀ lines (g : Grammar), ofLines lines = .ok g → g.HasAlternatives) ∧
    (∀ text (g : Grammar), ofText text = .ok g → g.HasAlternatives) ∧
    ∀ rules (g : Grammar), ofRules rules = .ok g → g.HasAlternatives →
      g.findLeftRecursion = some none → g.SolidFronts →
      ∃ a, g.analyze = .ok a ∧
        (∀ i, g.IsNonTerminal i → ∃ set, a.first.get? i = some set ∧ set ≠ ∅) ∧
        (∀ s, g.InUse s → ∃ set, a.first.firstOf? s = some set ∧ set ≠ ∅) ∧
        ∀ i, ReflTransGen g.Uses start i → ∃ set, a.follow.get? i = some set ∧ set ≠ ∅ := by
  refine ⟨fun _ _ => hasAlternatives_of_ofLines, fun _ _ => hasAlternatives_of_ofLines,
    fun rules g h halt hsearch hsolid => ?_⟩
  have hg := wellFormed_of_ofRules h
  have hnone : g.leftRecursion? = none := by
    rw [findLeftRecursion_eq hg] at hsearch
    exact Option.map_eq_none_iff.mp (Option.some.inj hsearch)
  refine ⟨g.analysis, g.analyze_eq_ok_iff.mpr ⟨hnone, rfl⟩, fun i hi => ?_, fun s hs => ?_,
    fun i hi => ?_⟩
  · refine ⟨_, g.within_first.get?_eq hi.lt_symbolCount, ?_⟩
    exact IndexSet.ne_empty_iff.mpr (exists_mem_get_first hg halt hnone hsolid hi.lt_symbolCount)
  · refine ⟨_, firstOf?_first hs, ?_⟩
    exact IndexSet.ne_empty_iff.mpr (exists_mem_firstOf hg halt hnone hsolid hs)
  · have hn : g.IsNonTerminal i := by
      cases hi with
      | refl => exact hg.isNonTerminal_start
      | tail _ huses => exact huses.1
    refine ⟨_, g.within_follow.get?_eq hn.lt_symbolCount, ?_⟩
    exact IndexSet.ne_empty_iff.mpr (exists_mem_get_follow hg halt hnone hsolid hi)

/-- Both symbols that `E` leads to have something next to them, `T` as `X` behind it can vanish. -/
theorem sets_nonempty_sum : ofText "E -> T X\nX -> + T X | ε\nT -> int | ( E )" = .ok sumGrammar ∧
    ∃ a, sumGrammar.analyze = .ok a ∧
      (∃ set, a.first.get? 3 = some set ∧ set ≠ ∅) ∧
      (∃ set, a.first.firstOf? [3, epsilon, endMark] = some set ∧ set ≠ ∅) ∧
      (∃ set, a.follow.get? 3 = some set ∧ set ≠ ∅) ∧
      ∃ set, a.follow.get? 4 = some set ∧ set ≠ ∅ := by
  have htext : ofText "E -> T X\nX -> + T X | ε\nT -> int | ( E )" = .ok sumGrammar := by
    decide +kernel
  have hrules : ofRules sumRules = .ok sumGrammar := rfl
  have hsearch : sumGrammar.findLeftRecursion = some none := by
    rw [findLeftRecursion_eq (wellFormed_of_ofRules hrules), leftRecursion?_sumGrammar]
    rfl
  have hsolid : ∀ p ∈ sumGrammar.productions, 2 ≤ p.right.length →
      ∀ i ∈ p.right.head?, ¬sumGrammar.first.IsNullable i := by
    decide +kernel
  obtain ⟨-, halt, hsets⟩ := sets_nonempty
  obtain ⟨a, ha, hfirst, hfirstOf, hfollow⟩ :=
    hsets _ _ hrules (halt _ _ htext) hsearch hsolid
  have huses (i : Nat) (hn : sumGrammar.IsNonTerminal i) (hi : i ∈ [4, 3]) :
      ReflTransGen sumGrammar.Uses start i :=
    .single ⟨hn, [4, 3], by decide, hi⟩
  exact ⟨htext, a, ha, hfirst 3 (by decide), hfirstOf _ (by decide),
    hfollow 3 (huses 3 (by decide) (by decide)), hfollow 4 (huses 4 (by decide) (by decide))⟩

end Grammar

end Lookahead
