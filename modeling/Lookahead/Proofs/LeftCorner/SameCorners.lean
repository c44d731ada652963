import Lookahead.Proofs.LeftCorner.Cycle

/-!
# Searches that take the same steps

A search goes from non-terminal to non-terminal, each a left corner of the one before. So a grammar
is searched like another, by other numbers, if these numbers take the non-terminals among the left
corners and the productions that lead to them to those of the other (`Grammar.SameCorners`). The
other grammar may have more left corners that are no non-terminals, and more non-terminals from
elsewhere.

* `SameCorners.leftCycle?_map` : the ways back are the same, by other numbers.
-/

namespace Lookahead

/-- The trail by other numbers. -/
def Trail.map (f : Nat → Nat) (m : Production → Production) (trail : Trail) : Trail :=
  ⟨f trail.tip, trail.steps.map m⟩

namespace Grammar

variable {g g' : Grammar} {f : Nat → Nat} {m : Production → Production} {root i j : Nat}
  {unreached unreached' : List Nat} {stack : List Trail}

/-- The numbers `f` and the productions `m` of `g'` stand for those of `g`, as far as a search from
non-terminals of `g` can see. -/
structure SameCorners (g g' : Grammar) (f : Nat → Nat) (m : Production → Production) : Prop where
  isNonTerminal : ∀ i, g.IsNonTerminal i → g'.IsNonTerminal (f i)
  injOn : ∀ i j, g.IsNonTerminal i → g.IsNonTerminal j → f i = f j → i = j
  leftCorners : ∀ i, g.IsNonTerminal i → (g'.leftCorners (f i)).filter g'.IsNonTerminal =
    ((g.leftCorners i).filter g.IsNonTerminal).map f
  productionTo? : ∀ i j, g.IsNonTerminal i → g.IsNonTerminal j →
    g'.productionTo? (f i) (f j) = (g.productionTo? i j).map m

/-- A trail that does not close makes way for those that go on from it. -/
theorem searchFrom_cons_of_none {trail : Trail} {fresh : List Nat}
    (h : g.productionTo? trail.tip root = none)
    (hfresh : (g.leftCorners trail.tip).filter (· ∈ unreached) = fresh) :
    g.searchFrom root unreached (trail :: stack) =
      g.searchFrom root (unreached.removeAll fresh) ((g.extend trail fresh).reverse ++ stack) := by
  rw [searchFrom, h, ← hfresh]

namespace SameCorners

variable (h : SameCorners g g' f m)
include h

theorem filter_leftCorners (hi : g.IsNonTerminal i) (hun : ∀ j ∈ unreached, g.IsNonTerminal j)
    (hun' : ∀ j ∈ unreached', g'.IsNonTerminal j)
    (hmem : ∀ j, g.IsNonTerminal j → (f j ∈ unreached' ↔ j ∈ unreached)) :
    (g'.leftCorners (f i)).filter (· ∈ unreached') =
      ((g.leftCorners i).filter (· ∈ unreached)).map f := by
  have hnarrow {g : Grammar} {i : Nat} {unreached : List Nat}
      (hun : ∀ j ∈ unreached, g.IsNonTerminal j) : (g.leftCorners i).filter (· ∈ unreached) =
        ((g.leftCorners i).filter g.IsNonTerminal).filter (· ∈ unreached) := by
    rw [List.filter_filter]
    exact List.filter_congr fun j _ => by simpa using hun j
  rw [hnarrow hun, hnarrow hun', h.leftCorners i hi, List.filter_map]
  refine congrArg _ (List.filter_congr fun j hj => ?_)
  exact decide_eq_decide.mpr (hmem j (by simpa using (List.mem_filter.mp hj).2))

theorem extend_map {trail : Trail} {corners : List Nat} (htip : g.IsNonTerminal trail.tip)
    (hcorners : ∀ j ∈ corners, g.IsNonTerminal j) :
    g'.extend (trail.map f m) (corners.map f) = (g.extend trail corners).map (Trail.map f m) := by
  rw [extend, extend, List.filterMap_map, List.map_filterMap]
  refine List.filterMap_congr fun j hj => ?_
  show (g'.productionTo? (f trail.tip) (f j)).map _ = _
  rw [h.productionTo? _ _ htip (hcorners j hj), Option.map_map, Option.map_map]
  rfl

/-- What is left unreached corresponds again. -/
theorem mem_removeAll_map {fresh : List Nat} (hfresh : ∀ j ∈ fresh, g.IsNonTerminal j)
    (hmem : ∀ j, g.IsNonTerminal j → (f j ∈ unreached' ↔ j ∈ unreached)) (hj : g.IsNonTerminal j) :
    f j ∈ unreached'.removeAll (fresh.map f) ↔ j ∈ unreached.removeAll fresh := by
  have himage : f j ∈ fresh.map f ↔ j ∈ fresh := by
    refine ⟨fun hmem => ?_, List.mem_map_of_mem⟩
    obtain ⟨k, hk, heq⟩ := List.mem_map.mp hmem
    exact h.injOn k j (hfresh k hk) hj heq ▸ hk
  simp only [List.removeAll, List.mem_filter, List.elem_eq_mem, Bool.not_eq_true',
    decide_eq_false_iff_not, hmem j hj, himage]

/-- The search takes the same steps, whatever else there is that it does not reach. -/
theorem searchFrom_map (hroot : g.IsNonTerminal root) (hun : ∀ j ∈ unreached, g.IsNonTerminal j)
    (hun' : ∀ j ∈ unreached', g'.IsNonTerminal j)
    (hmem : ∀ j, g.IsNonTerminal j → (f j ∈ unreached' ↔ j ∈ unreached))
    (hstack : ∀ trail ∈ stack, g.IsNonTerminal trail.tip) :
    g'.searchFrom (f root) unreached' (stack.map (Trail.map f m)) =
      (g.searchFrom root unreached stack).map (List.map m) := by
  revert unreached'
  induction unreached, stack using searchFrom.induct g root with
  | case1 =>
    intro unreached' _ _
    rw [List.map_nil, searchFrom, searchFrom, Option.map_none]
  | case2 unreached trail stack p hp =>
    intro unreached' _ _
    have hclose := h.productionTo? _ _ (hstack trail List.mem_cons_self) hroot
    rw [hp] at hclose
    rw [List.map_cons, searchFrom, searchFrom, Trail.map, hclose, hp]
    simp
  | case3 unreached trail stack hp fresh ih =>
    intro unreached' hun' hmem
    have htip := hstack trail List.mem_cons_self
    have hclose := h.productionTo? _ _ htip hroot
    rw [hp] at hclose
    have hcorners : ∀ j ∈ fresh, g.IsNonTerminal j := fun j hj =>
      hun j (by simpa using (List.mem_filter.mp hj).2)
    rw [List.map_cons, searchFrom_cons_of_none hclose (h.filter_leftCorners htip hun hun' hmem),
      searchFrom_cons_of_none hp rfl, h.extend_map htip hcorners, ← List.map_reverse,
      ← List.map_append]
    refine ih (fun j hj => hun j (List.mem_filter.mp hj).1) (fun next hnext => ?_)
      (fun j hj => hun' j (List.mem_filter.mp hj).1) fun j => h.mem_removeAll_map hcorners hmem
    rcases List.mem_append.mp hnext with hnext | hnext
    · obtain ⟨j, hj, p, -, rfl⟩ := mem_extend.mp (List.mem_reverse.mp hnext)
      exact hcorners j hj
    · exact hstack next (List.mem_cons_of_mem _ hnext)

/-- The ways back to a non-terminal are the same, by other numbers. -/
theorem leftCycle?_map (hroot : g.IsNonTerminal root) :
    g'.leftCycle? (f root) = (g.leftCycle? root).map (List.map m) := by
  have hstack : ∀ trail ∈ [(⟨root, []⟩ : Trail)], g.IsNonTerminal trail.tip := by simpa using hroot
  have hmem (j : Nat) (hj : g.IsNonTerminal j) :
      f j ∈ g'.nonTerminalIndexes.filter (· ≠ f root) ↔
        j ∈ g.nonTerminalIndexes.filter (· ≠ root) := by
    rw [mem_unreached_start, mem_unreached_start, and_iff_right (h.isNonTerminal j hj),
      and_iff_right hj, not_iff_not]
    exact ⟨h.injOn j root hj hroot, congrArg f⟩
  exact h.searchFrom_map hroot (fun j hj => (mem_unreached_start.mp hj).1)
    (fun j hj => (mem_unreached_start.mp hj).1) hmem hstack

/-- The first report on the old non-terminals, by other numbers, is the old one, where each of them
is reported as before, up to `e`. -/
theorem findSome?_report {e : LeftRecursion → LeftRecursion}
    (hreport : ∀ i cycle, g.IsNonTerminal i → g.leftCycle? i = some cycle →
      g'.reportCycle (f i) (cycle.map m) = e (g.reportCycle i cycle)) :
    ((g.nonTerminalIndexes.map f).findSome? fun i => (g'.leftCycle? i).map (g'.reportCycle i)) =
      g.leftRecursion?.map e := by
  rw [leftRecursion?, List.map_findSome?, List.findSome?_map, ← List.head?_filterMap,
    ← List.head?_filterMap]
  refine congrArg List.head? (List.filterMap_congr fun i hi => ?_)
  have hn := g.mem_nonTerminalIndexes.mp hi
  show (g'.leftCycle? (f i)).map _ = ((g.leftCycle? i).map _).map e
  rw [h.leftCycle?_map hn]
  cases hcycle : g.leftCycle? i with
  | none => rfl
  | some cycle => exact congrArg some (hreport i cycle hn hcycle)

end SameCorners

end Grammar

end Lookahead
