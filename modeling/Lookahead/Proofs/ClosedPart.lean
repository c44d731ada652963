import Mathlib.Data.List.Find
import Lookahead.Proofs.Grammar.Extension
import Lookahead.Proofs.LeftCorner.SameCorners

/-!
# Closed parts of grammars

A grammar that is embedded in another is a closed part of it (`Grammar.ClosedPart`) if the other
has no more alternatives for its non-terminals, and no two of its numbers become one. Then nothing
leads out of the part : a derivation in the whole that starts with symbols of the part is one of the
part (`ClosedPart.exists_of_derives`), and the search for left recursion takes the same steps
(`ClosedPart.sameCorners`). So FIRST is the same, and what comes last before the end.

The rest may use the part. What follows a symbol of the part in the rest is new in FOLLOW.

`closedPart_of_extends` : rules are such a part of rules that define other names besides.
-/

namespace Lookahead

open Relation
open Rules (leftSides alternativesFor)

namespace Grammar

variable {g g' : Grammar} {f : Nat → Nat} {i j k : Nat} {s u : List Nat}

theorem WellFormed.lt_of_head? (hg : g.WellFormed) {right : List Nat}
    (hright : right ∈ g.alternatives i) (hj : right.head? = some j) : j < g.symbolCount :=
  hg.lt_of_mem_right ⟨i, right⟩ (g.mem_productions.mpr hright) j (List.mem_of_head? hj)

/-- `f` embeds `g` in `g'`, without making two symbols one, such that the non-terminals have the
same alternatives. -/
structure ClosedPart (g g' : Grammar) (f : Nat → Nat) : Prop extends Embeds g g' f where
  injOn : ∀ i j, i < g.symbolCount → j < g.symbolCount → f i = f j → i = j
  alternatives : ∀ i, g.IsNonTerminal i → g'.alternatives (f i) = (g.alternatives i).map (·.map f)

namespace ClosedPart

variable (h : ClosedPart g g' f)
include h

theorem isNonTerminal_iff (hi : i < g.symbolCount) : g'.IsNonTerminal (f i) ↔ g.IsNonTerminal i :=
  ⟨fun hn => by_contra fun hn' => h.not_isNonTerminal hi hn' hn, h.isNonTerminal i⟩

theorem isTerminal_iff (hi : i < g.symbolCount) : g'.IsTerminal (f i) ↔ g.IsTerminal i := by
  refine ⟨fun ht => ?_, h.isTerminal i⟩
  rcases cases_of_lt_symbolCount hi with rfl | rfl | hn | ht'
  · exact absurd h.epsilon ht.ne_epsilon
  · exact absurd h.endMark ht.ne_endMark
  · exact absurd (h.isNonTerminal i hn) ht.not_isNonTerminal
  · exact ht'

/-- A symbol of the part stands in the image of a string where it stands in the string. -/
theorem exists_eq_append_cons {x' y' : List Nat} (hu : g.InUse u) (hi : i < g.symbolCount)
    (heq : x' ++ f i :: y' = u.map f) : ∃ x y, u = x ++ i :: y ∧ y' = y.map f := by
  obtain ⟨x, rest, rfl, -, hrest⟩ := List.map_eq_append_iff.mp heq.symm
  obtain ⟨j, y, rfl, hj, rfl⟩ := List.map_eq_cons_iff.mp hrest
  obtain rfl := h.injOn j i (hu j (by simp)) hi hj
  exact ⟨x, y, rfl, rfl⟩

/-! ## Derivations -/

variable (hg : g.WellFormed)
include hg

/-- One step leads to a string of the part. -/
theorem exists_of_expands {u' : List Nat} (hs : g.InUse s) (hsu : g'.Expands (s.map f) u') :
    ∃ u, g.Expands s u ∧ u' = u.map f := by
  generalize hs' : s.map f = s' at hsu
  obtain ⟨front', back', hp'⟩ := hsu
  obtain ⟨front, rest, rfl, rfl, hrest⟩ := List.map_eq_append_iff.mp hs'
  obtain ⟨i, back, rfl, hleft, rfl⟩ := List.map_eq_cons_iff.mp hrest
  have hi : i < g.symbolCount := hs i (by simp)
  have hn : g.IsNonTerminal i :=
    (h.isNonTerminal_iff hi).mp (hleft ▸ g'.isNonTerminal_of_mem_productions hp')
  rw [g'.mem_productions, ← hleft, h.alternatives i hn] at hp'
  obtain ⟨right, hright, heq⟩ := List.mem_map.mp hp'
  have hp : (⟨i, right⟩ : Production) ∈ g.productions := g.mem_productions.mpr hright
  refine ⟨_, .intro front back hp, ?_⟩
  rw [← heq, h.unmarked_map (hg.lt_of_mem_right _ hp), List.map_append, List.map_append]

theorem exists_of_derives {u' : List Nat} (hs : g.InUse s) (hsu : g'.Derives (s.map f) u') :
    ∃ u, g.Derives s u ∧ u' = u.map f := by
  generalize hs' : s.map f = s' at hsu
  induction hsu generalizing s with
  | refl => exact ⟨s, .refl s, hs'.symm⟩
  | head first _ ih =>
    subst hs'
    obtain ⟨t, hst, rfl⟩ := h.exists_of_expands hg hs first
    obtain ⟨u, htu, rfl⟩ := ih (.of_derives hg hs hst.derives) rfl
    exact ⟨u, .head hst htu, rfl⟩

/-! ## What comes first -/

theorem exists_of_begins {k' : Nat} (hs : g.InUse s) (hk : g'.Begins (s.map f) k') :
    ∃ k, g.Begins s k ∧ k' = f k := by
  rcases hk with ⟨rfl, hd⟩ | ⟨hne, hn, rest', hd⟩
  · obtain ⟨u, hsu, hu⟩ := h.exists_of_derives hg hs hd
    rw [List.map_eq_nil_iff.mp hu.symm] at hsu
    exact ⟨Grammar.epsilon, begins_epsilon.mpr hsu, h.epsilon.symm⟩
  · obtain ⟨u, hsu, hu⟩ := h.exists_of_derives hg hs hd
    obtain ⟨k, rest, rfl, rfl, rfl⟩ := List.map_eq_cons_iff.mp hu.symm
    have hk : k ≠ Grammar.epsilon := by
      rintro rfl
      exact hne h.epsilon
    exact ⟨k, (begins_of_ne hk).mpr ⟨fun hn' => hn (h.isNonTerminal k hn'), rest, hsu⟩, rfl⟩

variable (hg' : g'.WellFormed)
include hg'

/-- FIRST of a symbol of the part is the same in the whole. -/
theorem mem_get_first_iff {k' : Nat} (hi : i < g.symbolCount) :
    k' ∈ g'.first.get (f i) ↔ ∃ k ∈ g.first.get i, f k = k' := by
  constructor
  · intro hk
    have hin : g.InUse [i] := by simpa [InUse] using hi
    rw [← SetTable.mem_firstOf_singleton, ← List.map_singleton,
      mem_firstOf_iff_begins hg' (h.inUse hin), h.unmarked_map hin] at hk
    obtain ⟨k, hk, rfl⟩ := h.exists_of_begins hg hin.unmarked hk
    refine ⟨k, ?_, rfl⟩
    rwa [← SetTable.mem_firstOf_singleton, mem_firstOf_iff_begins hg hin]
  · rintro ⟨k, hk, rfl⟩
    exact h.mem_get_first hg hg' hi hk

/-! ## What comes last -/

/-- The end comes next to a non-terminal of the part where it did before. -/
theorem endMark_mem_get_follow_iff (hi : g.IsNonTerminal i) (hstart : f start = start) :
    Grammar.endMark ∈ (g'.follow g'.first).get (f i) ↔
      Grammar.endMark ∈ (g.follow g.first).get i := by
  constructor
  · intro hend
    rw [mem_follow_iff_follows hg' (h.isNonTerminal i hi), follows_endMark] at hend
    obtain ⟨x', hd⟩ := hend
    have hin : g.InUse [start] := by simpa [InUse] using hg.isNonTerminal_start.lt_symbolCount
    rw [← hstart, ← List.map_singleton] at hd
    obtain ⟨u, hsu, hu⟩ := h.exists_of_derives hg hin hd
    obtain ⟨x, y, rfl, hy⟩ := h.exists_eq_append_cons (hin.of_derives hg hsu) hi.lt_symbolCount hu
    obtain rfl := List.map_eq_nil_iff.mp hy.symm
    rw [mem_follow_iff_follows hg hi, follows_endMark]
    exact ⟨x, hsu⟩
  · intro hend
    have := h.mem_get_follow hg hg' hi hend (Or.inr hstart)
    rwa [h.endMark] at this

omit hg'

/-! ## Left corners -/

theorem leftCorners_map (hi : g.IsNonTerminal i) :
    g'.leftCorners (f i) = (g.leftCorners i).map f := by
  have hheads : ((g.alternatives i).map (·.map f)).filterMap List.head? =
      ((g.alternatives i).filterMap List.head?).map f := by
    rw [List.filterMap_map, List.map_filterMap]
    exact List.filterMap_congr fun right _ => List.head?_map
  have hlt : ∀ j ∈ (g.alternatives i).filterMap List.head?, j < g.symbolCount := by
    intro j hj
    obtain ⟨right, hright, hhead⟩ := List.mem_filterMap.mp hj
    exact hg.lt_of_head? hright hhead
  rw [leftCorners, leftCorners, h.alternatives i hi, hheads, eraseDups_map_of_injOn]
  exact fun j hj k hk => h.injOn j k (hlt j hj) (hlt k hk)

theorem productionTo?_map (hi : g.IsNonTerminal i) (hj : j < g.symbolCount) :
    g'.productionTo? (f i) (f j) = (g.productionTo? i j).map (Production.map f) := by
  have hhead : ∀ right ∈ g.alternatives i,
      ((right.map f).head? = some (f j) ↔ right.head? = some j) := by
    intro right hright
    rw [List.head?_map]
    refine ⟨fun heq => ?_, fun heq => heq ▸ rfl⟩
    obtain ⟨k, hk, heq⟩ := Option.map_eq_some_iff.mp heq
    rw [hk, h.injOn k j (hg.lt_of_head? hright hk) hj heq]
  rw [productionTo?, productionTo?, h.alternatives i hi, List.find?_map, Option.map_map,
    Option.map_map]
  exact congrArg (Option.map _) (List.find?_congr fun right hright =>
    decide_eq_decide.mpr (hhead right hright))

/-- No left corner leads out of the part. -/
theorem sameCorners : SameCorners g g' f (Production.map f) where
  isNonTerminal := h.isNonTerminal
  injOn i j hi hj := h.injOn i j hi.lt_symbolCount hj.lt_symbolCount
  leftCorners i hi := by
    rw [h.leftCorners_map hg hi, List.filter_map]
    refine congrArg _ (List.filter_congr fun j hj => ?_)
    obtain ⟨right, hright, hhead⟩ := g.mem_leftCorners.mp hj
    exact decide_eq_decide.mpr (h.isNonTerminal_iff (hg.lt_of_head? hright hhead))
  productionTo? i j hi hj := h.productionTo?_map hg hi hj.lt_symbolCount

theorem exists_of_leftEdge {k' : Nat} (hi : g.IsNonTerminal i) (hk : g'.LeftEdge (f i) k') :
    ∃ k, g.LeftEdge i k ∧ k' = f k := by
  obtain ⟨hn, hcorner⟩ := hk
  rw [h.leftCorners_map hg hi] at hcorner
  obtain ⟨k, hk, rfl⟩ := List.mem_map.mp hcorner
  obtain ⟨right, hright, hhead⟩ := g.mem_leftCorners.mp hk
  exact ⟨k, ⟨(h.isNonTerminal_iff (hg.lt_of_head? hright hhead)).mp hn, hk⟩, rfl⟩

theorem exists_of_transGen {k' : Nat} (hi : g.IsNonTerminal i)
    (hk : TransGen g'.LeftEdge (f i) k') : ∃ k, TransGen g.LeftEdge i k ∧ k' = f k := by
  induction hk with
  | single hedge =>
    obtain ⟨k, hk, rfl⟩ := h.exists_of_leftEdge hg hi hedge
    exact ⟨k, .single hk, rfl⟩
  | tail _ hedge ih =>
    obtain ⟨j, hj, rfl⟩ := ih
    obtain ⟨hjn, -⟩ : g.IsNonTerminal j ∧ _ := (TransGen.tail'_iff.mp hj).choose_spec.2
    obtain ⟨k, hk, rfl⟩ := h.exists_of_leftEdge hg hjn hedge
    exact ⟨k, hj.tail hk, rfl⟩

/-! ## The report -/

/-- Where the names stay, the first report on the part is that on the grammar itself. -/
theorem findSome?_report (hname : ∀ i < g.symbolCount, g'.name (f i) = g.name i) :
    ((g.nonTerminalIndexes.map f).findSome? fun i => (g'.leftCycle? i).map (g'.reportCycle i)) =
      g.leftRecursion? := by
  refine ((h.sameCorners hg).findSome?_report (e := id) fun i cycle hi hcycle => ?_).trans
    (congrFun Option.map_id _)
  rw [id_eq, reportCycle, reportCycle, hname i hi.lt_symbolCount, List.map_map]
  refine congrArg _ (List.map_congr_left fun p hp => ?_)
  have hp := mem_productions_of_mem_leftCycle? hi hcycle hp
  have hright : g'.spell (p.right.map f) = g.spell p.right := by
    rw [spell, spell, List.map_map]
    exact List.map_congr_left fun i hi => hname i (hg.lt_of_mem_right p hp i hi)
  exact Prod.ext (hname _ (g.isNonTerminal_of_mem_productions hp).lt_symbolCount) hright

end ClosedPart

/-! ## From rules -/

section

variable {rules rules' : List Rule} (hext : Rules.Extends rules rules')
  (halt : ∀ left ∈ leftSides rules, alternativesFor rules' left = alternativesFor rules left)
  (h : ofRules rules = .ok g) (h' : ofRules rules' = .ok g')
include hext halt h h'

/-- Rules that only define other names leave what there is a closed part. -/
theorem closedPart_of_extends : ClosedPart g g' (renumber g g') where
  toEmbeds := embeds_of_extends hext h h'
  injOn i j hi hj heq := by
    refine (wellFormed_of_ofRules h).label?_injective hi ?_
    rw [← label?_renumber hext h h' hi, heq, label?_renumber hext h h' hj]
  alternatives i hi := by
    have hleft := name_mem_leftSides h hi
    have hsame := alternatives_number h hleft
    rw [number_name h hi.1 hi.lt_symbolCount] at hsame
    rw [renumber_of_start_le hi.1, alternatives_number h' (hext.mem_leftSides _ hleft),
      halt _ hleft, hsame, List.map_map]
    refine List.map_congr_left fun alternative hmem => ?_
    rw [Function.comp_apply, List.map_map]
    exact List.map_congr_left fun name hname => (renumber_number hext h h'
      (Or.inr (Rules.mem_rightNames_of_mem_alternativesFor hleft hmem hname))).symm

theorem labelSet_first_eq (hi : i < g.symbolCount) :
    g'.labelSet (g'.first.get (renumber g g' i)) = g.labelSet (g.first.get i) := by
  have hpart := closedPart_of_extends hext halt h h'
  refine Set.Subset.antisymm ?_ (labelSet_first_subset hext h h' hi)
  rintro _ ⟨k', hk', rfl⟩
  obtain ⟨k, hk, rfl⟩ := (hpart.mem_get_first_iff (wellFormed_of_ofRules h)
    (wellFormed_of_ofRules h') hi).mp hk'
  exact ⟨k, hk, (label?_renumber hext h h' (g.within_first.lt i k hk)).symm⟩

end

end Grammar

end Lookahead
