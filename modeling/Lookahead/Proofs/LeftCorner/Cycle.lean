import Mathlib.Logic.Relation
import Lookahead.Analysis
import Lookahead.Proofs.Grammar.WellFormed

/-!
# The search finds the cycles

The left corners that are non-terminals make a graph (`Grammar.LeftEdge`). The search for a
way back to a root finds one exactly if the root lies on a cycle of the graph
(`leftCycle?_isSome_iff`), so the report is about the first non-terminal on any cycle.

A trail on the stack is a way from the root (`Trail.From`), so what is found is a cycle.
That none is missed, though each non-terminal is looked at once, is an invariant of the
search (`Grammar.Explored`) : a non-terminal that has been reached is on the stack, or has
no production to the root and only reached non-terminals among its left corners. With an
empty stack, the non-terminals that have been reached are then closed under left corners,
and no way leads from the root to the root.

* `length_leftCycle?_le_one_iff` : a single production leads back exactly if the root is its
  own left corner.
* `leftRecursion?_reports_first_cycle` : what is reported, and when nothing is.
-/

namespace Lookahead

open Relation

/-- The steps of the trail lead from `root` to its tip, each by the first production that
takes the step. -/
inductive Trail.From (g : Grammar) (root : Nat) : Trail → Prop
  | start : Trail.From g root ⟨root, []⟩
  | step {trail : Trail} {j : Nat} {p : Production} (way : Trail.From g root trail)
    (hj : g.IsNonTerminal j) (hp : g.productionTo? trail.tip j = some p) :
    Trail.From g root ⟨j, p :: trail.steps⟩

namespace Grammar

variable {g : Grammar} {root i j : Nat} {unreached : List Nat} {stack : List Trail}
  {cycle : List Production}

/-! ## Edges -/

theorem leftEdge_iff : g.LeftEdge i j ↔
    g.IsNonTerminal j ∧ ∃ p ∈ g.productions, p.left = i ∧ p.right.head? = some j := by
  refine and_congr_right fun _ => ?_
  rw [mem_leftCorners]
  constructor
  · rintro ⟨right, hr, hj⟩
    exact ⟨⟨i, right⟩, g.mem_productions.mpr hr, rfl, hj⟩
  · rintro ⟨p, hp, rfl, hj⟩
    exact ⟨p.right, g.mem_productions.mp hp, hj⟩

theorem LeftEdge.isNonTerminal_left (h : g.LeftEdge i j) : g.IsNonTerminal i := by
  obtain ⟨-, p, hp, rfl, -⟩ := leftEdge_iff.mp h
  exact g.isNonTerminal_of_mem_productions hp

theorem LeftEdge.of_productionTo? {p : Production} (hj : g.IsNonTerminal j)
    (h : g.productionTo? i j = some p) : g.LeftEdge i j :=
  ⟨hj, g.productionTo?_isSome.mp (by simp [h])⟩

theorem isNonTerminal_of_transGen (h : TransGen g.LeftEdge i j) : g.IsNonTerminal i := by
  obtain ⟨k, hk, -⟩ := TransGen.head'_iff.mp h
  exact hk.isNonTerminal_left

theorem mem_extend {trail next : Trail} {corners : List Nat} : next ∈ g.extend trail corners ↔
    ∃ j ∈ corners, ∃ p, g.productionTo? trail.tip j = some p ∧ ⟨j, p :: trail.steps⟩ = next := by
  simp only [extend, List.mem_filterMap, Option.map_eq_some_iff]

/-! ## What is found is a cycle -/

theorem reflTransGen_of_from {trail : Trail} (h : trail.From g root) :
    ReflTransGen g.LeftEdge root trail.tip := by
  induction h with
  | start => exact .refl
  | step _ hj hp ih => exact ih.tail (.of_productionTo? hj hp)

/-- The steps of a trail are productions of their left sides. -/
theorem exists_productionTo?_of_mem_steps {trail : Trail} {p : Production} (h : trail.From g root)
    (hp : p ∈ trail.steps) : ∃ j, g.productionTo? p.left j = some p := by
  induction h with
  | start => exact absurd hp List.not_mem_nil
  | @step trail j q way hj hq ih =>
    rcases List.mem_cons.mp hp with rfl | hp
    · exact ⟨j, (g.productionTo?_eq_some hq).2.1 ▸ hq⟩
    · exact ih hp

/-- Whatever the search finds is a trail from the root that a production closes. -/
theorem exists_trail_of_searchFrom (hun : ∀ i ∈ unreached, g.IsNonTerminal i)
    (hstack : ∀ trail ∈ stack, trail.From g root)
    (h : g.searchFrom root unreached stack = some cycle) :
    ∃ (trail : Trail) (p : Production), trail.From g root ∧
      g.productionTo? trail.tip root = some p ∧ cycle = (p :: trail.steps).reverse := by
  induction unreached, stack using searchFrom.induct g root with
  | case1 => simp [searchFrom] at h
  | case2 unreached trail stack p hp =>
    rw [searchFrom, hp] at h
    exact ⟨trail, p, hstack trail List.mem_cons_self, hp, (Option.some.inj h).symm⟩
  | case3 unreached trail stack hp fresh ih =>
    rw [searchFrom, hp] at h
    refine ih (fun i hi => hun i (List.mem_filter.mp hi).1) (fun next hnext => ?_) h
    rcases List.mem_append.mp hnext with hnext | hnext
    · obtain ⟨j, hj, p, hp, rfl⟩ := mem_extend.mp (List.mem_reverse.mp hnext)
      have hfresh : j ∈ unreached := by simpa using (List.mem_filter.mp hj).2
      exact .step (hstack trail List.mem_cons_self) (hun j hfresh) hp
    · exact hstack next (List.mem_cons_of_mem _ hnext)

/-! ## No cycle is missed -/

/-- A non-terminal that has been reached has a trail on the stack, or it has been looked at
without finding the root, and its left corners have been reached too. -/
def Explored (g : Grammar) (root : Nat) (unreached : List Nat) (stack : List Trail) : Prop :=
  ∀ i, g.IsNonTerminal i → i ∉ unreached → (∃ trail ∈ stack, trail.tip = i) ∨
    (root ∉ g.leftCorners i ∧ ∀ j, g.LeftEdge i j → j ∉ unreached)

/-- Taking a trail from the stack and going on from it keeps the invariant. -/
theorem Explored.step {trail : Trail} (h : g.Explored root unreached (trail :: stack))
    (hroot : g.productionTo? trail.tip root = none) {fresh : List Nat}
    (hfresh : fresh = (g.leftCorners trail.tip).filter (· ∈ unreached)) :
    g.Explored root (unreached.removeAll fresh) ((g.extend trail fresh).reverse ++ stack) := by
  have hmem : ∀ j, j ∈ unreached.removeAll fresh ↔ j ∈ unreached ∧ j ∉ fresh := by
    simp [List.removeAll]
  intro i hn hi
  by_cases hif : i ∈ fresh
  · -- newly reached : there is a trail for it now
    have hcorner : i ∈ g.leftCorners trail.tip := by
      rw [hfresh] at hif
      exact (List.mem_filter.mp hif).1
    obtain ⟨p, hp⟩ := Option.isSome_iff_exists.mp (g.productionTo?_isSome.mpr hcorner)
    refine Or.inl ⟨⟨i, p :: trail.steps⟩, List.mem_append_left _ ?_, rfl⟩
    exact List.mem_reverse.mpr (mem_extend.mpr ⟨i, hif, p, hp, rfl⟩)
  have hold : i ∉ unreached := fun hu => hi ((hmem i).mpr ⟨hu, hif⟩)
  rcases h i hn hold with ⟨other, hother, rfl⟩ | ⟨hr, hj⟩
  · rcases List.mem_cons.mp hother with rfl | hother
    · -- the tip itself : all its left corners are reached now
      refine Or.inr ⟨fun hr => ?_, fun j hj hju => ?_⟩
      · have := g.productionTo?_isSome.mpr hr
        simp [hroot] at this
      · obtain ⟨hju, hjf⟩ := (hmem j).mp hju
        refine hjf ?_
        rw [hfresh]
        exact List.mem_filter.mpr ⟨hj.2, by simpa using hju⟩
    · exact Or.inl ⟨other, List.mem_append_right _ hother, rfl⟩
  · exact Or.inr ⟨hr, fun j hij hju => hj j hij ((hmem j).mp hju).1⟩

/-- Once the stack is empty, no way leads from the root back to it. -/
theorem Explored.not_transGen (h : g.Explored root unreached []) (hroot : root ∉ unreached) :
    ¬TransGen g.LeftEdge root root := by
  intro hcycle
  have hn := isNonTerminal_of_transGen hcycle
  have hclosed : ∀ i, ReflTransGen g.LeftEdge root i → g.IsNonTerminal i ∧ i ∉ unreached := by
    intro i hi
    induction hi with
    | refl => exact ⟨hn, hroot⟩
    | tail _ hedge ih =>
      rcases h _ ih.1 ih.2 with ⟨_, hnil, _⟩ | ⟨_, hj⟩
      · exact absurd hnil List.not_mem_nil
      · exact ⟨hedge.1, hj _ hedge⟩
  obtain ⟨i, hi, hedge⟩ := TransGen.tail'_iff.mp hcycle
  obtain ⟨hin, hiu⟩ := hclosed i hi
  rcases h i hin hiu with ⟨_, hnil, _⟩ | ⟨hr, _⟩
  · exact absurd hnil List.not_mem_nil
  · exact hr hedge.2

theorem not_transGen_of_searchFrom_eq_none (h : g.searchFrom root unreached stack = none)
    (hexp : g.Explored root unreached stack) (hroot : root ∉ unreached) :
    ¬TransGen g.LeftEdge root root := by
  induction unreached, stack using searchFrom.induct g root with
  | case1 => exact hexp.not_transGen hroot
  | case2 unreached trail stack p hp => simp [searchFrom, hp] at h
  | case3 unreached trail stack hp fresh ih =>
    rw [searchFrom, hp] at h
    exact ih h (hexp.step hp rfl) fun hr => hroot (List.mem_filter.mp hr).1

/-! ## The search from one root -/

theorem mem_unreached_start : i ∈ g.nonTerminalIndexes.filter (· ≠ root) ↔
    g.IsNonTerminal i ∧ i ≠ root := by
  simp [mem_nonTerminalIndexes]

theorem exists_trail_of_leftCycle? (h : g.leftCycle? root = some cycle) :
    ∃ (trail : Trail) (p : Production), trail.From g root ∧
      g.productionTo? trail.tip root = some p ∧ cycle = (p :: trail.steps).reverse := by
  refine exists_trail_of_searchFrom (fun i hi => (mem_unreached_start.mp hi).1) ?_ h
  intro trail htrail
  obtain rfl := List.mem_singleton.mp htrail
  exact .start

/-- A trail that is closed by a production leads from the root to the root. -/
theorem exists_closed_trail (hroot : g.IsNonTerminal root) (h : g.leftCycle? root = some cycle) :
    ∃ trail : Trail, trail.From g root ∧ trail.tip = root ∧ cycle = trail.steps.reverse ∧
      cycle ≠ [] := by
  obtain ⟨trail, p, hway, hp, rfl⟩ := exists_trail_of_leftCycle? h
  exact ⟨_, .step hway hroot hp, rfl, rfl, by simp⟩

/-- The productions on a way back are the first of their kind. -/
theorem exists_productionTo?_of_mem_leftCycle? {p : Production} (hroot : g.IsNonTerminal root)
    (h : g.leftCycle? root = some cycle) (hp : p ∈ cycle) :
    ∃ j, g.productionTo? p.left j = some p := by
  obtain ⟨trail, hway, -, rfl, -⟩ := exists_closed_trail hroot h
  exact exists_productionTo?_of_mem_steps hway (List.mem_reverse.mp hp)

theorem mem_productions_of_mem_leftCycle? {p : Production} (hroot : g.IsNonTerminal root)
    (h : g.leftCycle? root = some cycle) (hp : p ∈ cycle) : p ∈ g.productions := by
  obtain ⟨j, hj⟩ := exists_productionTo?_of_mem_leftCycle? hroot h hp
  exact (g.productionTo?_eq_some hj).1

/-- There is a way back to the root exactly if it lies on a cycle. -/
theorem leftCycle?_isSome_iff (hroot : g.IsNonTerminal root) :
    (g.leftCycle? root).isSome ↔ TransGen g.LeftEdge root root := by
  constructor
  · intro h
    obtain ⟨cycle, hc⟩ := Option.isSome_iff_exists.mp h
    obtain ⟨trail, p, hway, hp, -⟩ := exists_trail_of_leftCycle? hc
    exact .tail' (reflTransGen_of_from hway) (.of_productionTo? hroot hp)
  · intro h
    by_contra hnone
    rw [Option.not_isSome_iff_eq_none] at hnone
    refine not_transGen_of_searchFrom_eq_none hnone (fun i hn hi => ?_) ?_ h
    · have : i = root := by
        by_contra hne
        exact hi (mem_unreached_start.mpr ⟨hn, hne⟩)
      exact Or.inl ⟨⟨root, []⟩, List.mem_singleton.mpr rfl, this.symm⟩
    · exact fun hmem => (mem_unreached_start.mp hmem).2 rfl

theorem length_leftCycle?_le_one_iff (hroot : g.IsNonTerminal root)
    (h : g.leftCycle? root = some cycle) : cycle.length ≤ 1 ↔ g.LeftEdge root root := by
  constructor
  · intro hlen
    obtain ⟨trail, p, hway, hp, rfl⟩ := exists_trail_of_leftCycle? h
    have hsteps : trail.steps = [] := by simpa using hlen
    cases hway with
    | start => exact .of_productionTo? hroot hp
    | step => simp at hsteps
  · intro hedge
    obtain ⟨p, hp⟩ := Option.isSome_iff_exists.mp (g.productionTo?_isSome.mpr hedge.2)
    rw [leftCycle?, searchFrom, hp] at h
    obtain rfl := Option.some.inj h
    simp

/-! ## The report -/

theorem leftRecursion?_eq_none_iff : g.leftRecursion? = none ↔
    ∀ i, ¬TransGen g.LeftEdge i i := by
  simp only [leftRecursion?, List.findSome?_eq_none_iff, mem_nonTerminalIndexes,
    Option.map_eq_none_iff]
  constructor
  · intro h i hi
    have hn := isNonTerminal_of_transGen hi
    have := (leftCycle?_isSome_iff hn).mpr hi
    simp [h i hn] at this
  · intro h i hn
    rw [← Option.not_isSome_iff_eq_none, leftCycle?_isSome_iff hn]
    exact h i

theorem isSome_leftRecursion?_iff : g.leftRecursion?.isSome ↔ ∃ i, TransGen g.LeftEdge i i := by
  rw [← not_iff_not, Option.not_isSome_iff_eq_none, leftRecursion?_eq_none_iff, not_exists]

/-- A map that keeps the edges keeps the cycles. -/
theorem isSome_leftRecursion?_of_leftEdge {g' : Grammar} {f : Nat → Nat}
    (hedge : ∀ i j, g.LeftEdge i j → g'.LeftEdge (f i) (f j)) (hsome : g.leftRecursion?.isSome) :
    g'.leftRecursion?.isSome := by
  obtain ⟨i, hi⟩ := isSome_leftRecursion?_iff.mp hsome
  exact isSome_leftRecursion?_iff.mpr ⟨f i, hi.lift f hedge⟩

/-- The report is about the first non-terminal on a cycle. -/
theorem exists_leftCycle?_of_leftRecursion? {r : LeftRecursion} (h : g.leftRecursion? = some r) :
    ∃ i cycle, g.IsNonTerminal i ∧ g.leftCycle? i = some cycle ∧ r = g.reportCycle i cycle ∧
      ∀ j, TransGen g.LeftEdge j j → i ≤ j := by
  obtain ⟨before, i, after, hsplit, hi, hbefore⟩ := List.findSome?_eq_some_iff.mp h
  obtain ⟨cycle, hc, rfl⟩ := Option.map_eq_some_iff.mp hi
  have hn : g.IsNonTerminal i := g.mem_nonTerminalIndexes.mp (by rw [hsplit]; simp)
  refine ⟨i, cycle, hn, hc, rfl, fun j hj => ?_⟩
  have hjn := isNonTerminal_of_transGen hj
  have hascending : (before ++ i :: after).Pairwise (· < ·) := by
    rw [← hsplit]
    exact List.pairwise_lt_range'
  have hmem : j ∈ before ++ i :: after := hsplit ▸ g.mem_nonTerminalIndexes.mpr hjn
  rcases List.mem_append.mp hmem with hj' | hj'
  · have hnone := Option.map_eq_none_iff.mp (hbefore j hj')
    have := (leftCycle?_isSome_iff hjn).mpr hj
    simp [hnone] at this
  · rcases List.mem_cons.mp hj' with rfl | hj'
    · exact Nat.le_refl _
    · have := (List.pairwise_append.mp hascending).2.1
      exact Nat.le_of_lt ((List.pairwise_cons.mp this).1 j hj')

theorem reportCycle_kind_eq_direct_iff (hroot : g.IsNonTerminal root)
    (h : g.leftCycle? root = some cycle) :
    (g.reportCycle root cycle).kind = .direct ↔ g.LeftEdge root root := by
  rw [← length_leftCycle?_le_one_iff hroot h]
  simp [LeftRecursion.kind, reportCycle]

/-- There is no report exactly if the left corners have no cycle. Else the report names the
first non-terminal of the grammar that lies on a cycle, and no other, and is direct exactly
if that non-terminal is its own left corner. The analysis is refused exactly if there is a
cycle, and otherwise holds the sets that are computed for any grammar. -/
theorem leftRecursion?_reports_first_cycle {rules : List Rule} (h : ofRules rules = .ok g) :
    (g.leftRecursion? = none ↔ ∀ i, ¬TransGen g.LeftEdge i i) ∧
    (∀ r, g.leftRecursion? = some r → ∃ i, g.IsNonTerminal i ∧ r.nonTerminal = g.name i ∧
      TransGen g.LeftEdge i i ∧ (∀ j, TransGen g.LeftEdge j j → i ≤ j) ∧
      (r.kind = .direct ↔ g.LeftEdge i i) ∧
      ∀ j, g.IsNonTerminal j → g.name j = r.nonTerminal → j = i) ∧
    ((∃ a, g.analyze = .ok a) ↔ ∀ i, ¬TransGen g.LeftEdge i i) ∧
    ∀ a, g.analyze = .ok a → a.first = g.first ∧ a.follow = g.follow g.first := by
  have hg := wellFormed_of_ofRules h
  refine ⟨leftRecursion?_eq_none_iff, fun r hr => ?_, ?_, fun a ha => ?_⟩
  · obtain ⟨i, cycle, hn, hc, rfl, hfirst⟩ := exists_leftCycle?_of_leftRecursion? hr
    have hcycle := (leftCycle?_isSome_iff hn).mp (by simp [hc])
    exact ⟨i, hn, rfl, hcycle, hfirst, reportCycle_kind_eq_direct_iff hn hc,
      fun j hj hname => hg.name_injective hj.1 hj.lt_symbolCount hn.1 hn.lt_symbolCount hname⟩
  · rw [← leftRecursion?_eq_none_iff]
    simp only [analyze_eq_ok_iff, exists_and_left, exists_eq, and_true]
  · obtain ⟨-, rfl⟩ := g.analyze_eq_ok_iff.mp ha
    exact ⟨rfl, rfl⟩

/-- Rules whose only cycle, between `B` and `C`, is reached from `S` and `A` before it. -/
def cycleRules : List Rule :=
  [⟨"S", [["A", "b"], ["C"]]⟩, ⟨"A", [["B"]]⟩, ⟨"B", [["c", "S"], ["C", "b"]]⟩,
    ⟨"C", [["c"], ["B", "B"]]⟩]

/-- The grammar of `cycleRules`. -/
def cycleGrammar : Grammar :=
  ⟨[⟨"S", [[3, 6], [5]]⟩, ⟨"A", [[4]]⟩, ⟨"B", [[7, 2], [5, 6]]⟩, ⟨"C", [[7], [4, 4]]⟩], ["b", "c"]⟩

/-- The way from `B` over `C` back to `B`. -/
def cycleReport : LeftRecursion :=
  ⟨"B", [("B", ["C", "b"]), ("C", ["B", "B"])]⟩

theorem leftRecursion?_cycleGrammar : cycleGrammar.leftRecursion? = some cycleReport := by
  cbv

/-- The report names `B`, which is on the cycle and is not its own left corner. -/
theorem leftRecursion?_reports_first_cycle_behind : ofRules cycleRules = .ok cycleGrammar ∧
    ∃ i, cycleGrammar.name i = "B" ∧ TransGen cycleGrammar.LeftEdge i i ∧
      ¬cycleGrammar.LeftEdge i i := by
  have hok : ofRules cycleRules = .ok cycleGrammar := rfl
  obtain ⟨i, -, hname, hcycle, -, hkind, -⟩ :=
    (leftRecursion?_reports_first_cycle hok).2.1 _ leftRecursion?_cycleGrammar
  exact ⟨hok, i, hname.symm, hcycle, fun hedge => absurd (hkind.mpr hedge) (by decide)⟩

end Grammar

end Lookahead
