import Lookahead.Proofs.ClosedPart
import Lookahead.Proofs.LeftCorner.Links

/-!
# A rule for a name that is not in use

A rule for a name that occurs nowhere in the other rules comes last among the non-terminals. It may
bring in terminals and use all there is, but nothing leads to it. So the rules before are a closed
part, and keep the numbers of their non-terminals (`renumber_of_isNonTerminal`).

The search for left recursion comes to the new non-terminal last (`leftRecursion?_fresh`). From
there no way leads back but directly (`transGen_fresh_iff`), as whatever leaves it does not return.
-/

namespace Lookahead

open Relation
open Grammar (start endMark)
open Rules (number leftSides alternativesFor)

namespace Rules

variable {rules : List Rule} {r : Rule} {left name : String}

/-- The name is neither a left side nor part of an alternative. -/
def Unused (rules : List Rule) (name : String) : Prop :=
  ∀ r ∈ rules, r.left ≠ name ∧ ∀ alternative ∈ r.alternatives, name ∉ alternative

instance (rules : List Rule) (name : String) : Decidable (Unused rules name) :=
  inferInstanceAs (Decidable (∀ r ∈ rules, _))

namespace Unused

theorem not_mem_leftSides (h : Unused rules name) : name ∉ leftSides rules := by
  intro hmem
  obtain ⟨r, hr, hleft⟩ := mem_leftSides.mp hmem
  exact (h r hr).1 hleft

theorem not_mem_rightNames (h : Unused rules name) : name ∉ rightNames rules := by
  intro hmem
  obtain ⟨left, -, alternative, halt, hname⟩ := mem_rightNames.mp hmem
  obtain ⟨r, hr, -, halt⟩ := mem_alternativesFor.mp halt
  exact (h r hr).2 alternative halt hname

variable (h : Unused rules r.left)
include h

theorem leftSides_concat : leftSides (rules ++ [r]) = leftSides rules ++ [r.left] :=
  leftSides_concat_of_not_mem h.not_mem_leftSides

theorem alternativesFor_concat_of_mem (hleft : left ∈ leftSides rules) :
    alternativesFor (rules ++ [r]) left = alternativesFor rules left := by
  refine alternativesFor_concat_of_ne fun heq => ?_
  exact h.not_mem_leftSides (heq ▸ hleft)

theorem alternativesFor_concat_self : alternativesFor (rules ++ [r]) r.left = r.alternatives := by
  rw [alternativesFor_concat, if_pos rfl, alternativesFor_eq_nil h.not_mem_leftSides,
    List.nil_append]

theorem extends_concat : Extends rules (rules ++ [r]) where
  mem_leftSides left hleft := by
    rw [h.leftSides_concat]
    exact List.mem_append_left _ hleft
  mem_alternativesFor left alternative halt := by
    rw [alternativesFor_concat]
    exact List.mem_append_left _ halt
  not_mem_leftSides name hright hleft := by
    rw [h.leftSides_concat, List.mem_append, List.mem_singleton, not_or]
    refine ⟨hleft, ?_⟩
    rintro rfl
    exact h.not_mem_rightNames hright

end Unused

end Rules

namespace Grammar

variable {g g' : Grammar} {rules : List Rule} {r : Rule} {i i' : Nat}

section

variable (hfresh : Rules.Unused rules r.left) (h' : ofRules (rules ++ [r]) = .ok g')
include hfresh h'

/-! ## The new non-terminal -/

theorem isNonTerminal_fresh : g'.IsNonTerminal (number g'.names r.left) :=
  isNonTerminal_number h' (by simp [hfresh.leftSides_concat])

theorem name_fresh : g'.name (number g'.names r.left) = r.left := by
  refine name_number (Or.inl ?_)
  rw [names_of_ofRules h', hfresh.leftSides_concat]
  simp

/-- The new non-terminal is its own left corner if one of its alternatives starts with it. -/
theorem leftEdge_fresh_iff : g'.LeftEdge (number g'.names r.left) (number g'.names r.left) ↔
    ∃ alternative ∈ r.alternatives, alternative.head? = some r.left := by
  have hleft : r.left ∈ leftSides (rules ++ [r]) := by simp [hfresh.leftSides_concat]
  have halternatives := alternatives_number h' hleft
  rw [hfresh.alternativesFor_concat_self] at halternatives
  rw [LeftEdge, and_iff_right (isNonTerminal_fresh hfresh h'), mem_leftCorners, halternatives]
  constructor
  · rintro ⟨right, hright, hhead⟩
    obtain ⟨alternative, halt, rfl⟩ := List.mem_map.mp hright
    rw [List.head?_map, Option.map_eq_some_iff] at hhead
    obtain ⟨name, hname, hnumber⟩ := hhead
    refine ⟨alternative, halt, hname.trans (congrArg some ?_)⟩
    -- what is in an alternative is the name of its number
    have hright := Rules.mem_rightNames_of_mem_alternativesFor hleft
      (hfresh.alternativesFor_concat_self ▸ halt) (List.mem_of_head? hname)
    have hmem := Rules.mem_names_or_eq_of_mem_rightNames hright
    rw [← names_of_ofRules h'] at hmem
    rw [← name_number hmem, hnumber, name_fresh hfresh h']
  · rintro ⟨alternative, halt, hhead⟩
    exact ⟨_, List.mem_map_of_mem halt, by rw [List.head?_map, hhead, Option.map_some]⟩

/-! ## The old ones -/

variable (h : ofRules rules = .ok g)
include h

/-- The new non-terminal comes after the old ones. -/
theorem number_fresh : number g'.names r.left = start + g.nonTerminals.length := by
  rw [names_of_ofRules h', hfresh.leftSides_concat, number_append_of_mem (by simp),
    number_concat hfresh.not_mem_leftSides, length_nonTerminals_of_ofRules h]

theorem length_nonTerminals_fresh : g'.nonTerminals.length = g.nonTerminals.length + 1 := by
  rw [length_nonTerminals_of_ofRules h, length_nonTerminals_of_ofRules h',
    hfresh.leftSides_concat, List.length_append, List.length_singleton]

/-- The old non-terminals keep their numbers. -/
theorem renumber_of_isNonTerminal (hi : g.IsNonTerminal i) : renumber g g' i = i := by
  have hleft := name_mem_leftSides h hi
  have hnumber := number_name h hi.1 hi.lt_symbolCount
  rw [names_of_ofRules h, number_append_of_mem hleft] at hnumber
  rw [renumber_of_start_le hi.1, names_of_ofRules h', hfresh.leftSides_concat, List.append_assoc,
    number_append_of_mem hleft, hnumber]

theorem nonTerminalIndexes_fresh : g'.nonTerminalIndexes =
    g.nonTerminalIndexes.map (renumber g g') ++ [number g'.names r.left] := by
  have hsame : g.nonTerminalIndexes.map (renumber g g') = g.nonTerminalIndexes.map id :=
    List.map_congr_left fun i hi =>
      renumber_of_isNonTerminal hfresh h' h (g.mem_nonTerminalIndexes.mp hi)
  rw [hsame, List.map_id, nonTerminalIndexes, nonTerminalIndexes,
    length_nonTerminals_fresh hfresh h' h, List.range'_concat, number_fresh hfresh h' h,
    Nat.one_mul]

/-- No old non-terminal gets the number of the new one. -/
theorem renumber_ne_fresh (hi : g.IsNonTerminal i) :
    renumber g g' i ≠ number g'.names r.left := by
  rw [renumber_of_isNonTerminal hfresh h' h hi, number_fresh hfresh h' h]
  exact Nat.ne_of_lt hi.2

theorem closedPart_fresh : ClosedPart g g' (renumber g g') :=
  closedPart_of_extends hfresh.extends_concat
    (fun _ => hfresh.alternativesFor_concat_of_mem) h h'

/-! ## Left recursion -/

/-- Whatever is not the new non-terminal is an old one, and leads to old ones only. -/
theorem transGen_fresh_iff :
    TransGen g'.LeftEdge (number g'.names r.left) (number g'.names r.left) ↔
      g'.LeftEdge (number g'.names r.left) (number g'.names r.left) := by
  refine ⟨fun hcycle => ?_, .single⟩
  obtain ⟨i', hedge, hway⟩ := TransGen.head'_iff.mp hcycle
  have hmem := g'.mem_nonTerminalIndexes.mpr hedge.1
  rw [nonTerminalIndexes_fresh hfresh h' h, List.mem_append, List.mem_singleton] at hmem
  rcases hmem with hmem | rfl
  · obtain ⟨i, hi, rfl⟩ := List.mem_map.mp hmem
    have hn := g.mem_nonTerminalIndexes.mp hi
    have hback : TransGen g'.LeftEdge (renumber g g' i) (number g'.names r.left) :=
      (Relation.reflTransGen_iff_eq_or_transGen.mp hway).resolve_left
        (renumber_ne_fresh hfresh h' h hn).symm
    obtain ⟨k, hk, heq⟩ := (closedPart_fresh hfresh h' h).exists_of_transGen
      (wellFormed_of_ofRules h) hn hback
    obtain ⟨j, -, hlast⟩ := TransGen.tail'_iff.mp hk
    exact absurd heq.symm (renumber_ne_fresh hfresh h' h hlast.1)
  · exact hedge

/-- The search reports what it reported before, and else comes to the new non-terminal. -/
theorem leftRecursion?_fresh : g'.leftRecursion? = g.leftRecursion?.or
    ((g'.leftCycle? (number g'.names r.left)).map (g'.reportCycle (number g'.names r.left))) := by
  rw [leftRecursion?, nonTerminalIndexes_fresh hfresh h' h, List.findSome?_append,
    (closedPart_fresh hfresh h' h).findSome?_report (wellFormed_of_ofRules h)
      fun _ => name_renumber hfresh.extends_concat h h', List.findSome?_singleton]

theorem isSome_leftCycle?_fresh_iff : (g'.leftCycle? (number g'.names r.left)).isSome ↔
    ∃ alternative ∈ r.alternatives, alternative.head? = some r.left := by
  rw [leftCycle?_isSome_iff (isNonTerminal_fresh hfresh h'), transGen_fresh_iff hfresh h' h,
    leftEdge_fresh_iff hfresh h']

theorem kind_reportCycle_fresh {cycle : List Production}
    (hcycle : g'.leftCycle? (number g'.names r.left) = some cycle) :
    (g'.reportCycle (number g'.names r.left) cycle).kind = .direct := by
  rw [reportCycle_kind_eq_direct_iff (isNonTerminal_fresh hfresh h') hcycle,
    leftEdge_fresh_iff hfresh h', ← isSome_leftCycle?_fresh_iff hfresh h' h, hcycle, Option.isSome_some]

/-- If there was no left recursion, then the new non-terminal has it or nothing has. -/
theorem findLeftRecursion_fresh (hnone : g.leftRecursion? = none) : g'.findLeftRecursion =
    some ((g'.leftCycle? (number g'.names r.left)).map fun cycle =>
      (.direct, g'.reportCycle (number g'.names r.left) cycle)) := by
  rw [findLeftRecursion_eq (wellFormed_of_ofRules h'), leftRecursion?_fresh hfresh h' h, hnone,
    Option.none_or, Option.map_map]
  cases hcycle : g'.leftCycle? (number g'.names r.left) with
  | none => rfl
  | some cycle =>
    exact congrArg (fun kind => some (some (kind, _))) (kind_reportCycle_fresh hfresh h' h hcycle)

/-- By name, FIRST is the same, and FOLLOW holds what it held, and the end mark only if it did. -/
theorem sets_of_fresh (hi : SameLabel g g' i i') :
    g'.labelSet (g'.first.get i') = g.labelSet (g.first.get i) ∧
    (g.IsNonTerminal i →
      g.labelSet ((g.follow g.first).get i) ⊆ g'.labelSet ((g'.follow g'.first).get i') ∧
      (endMark ∈ (g'.follow g'.first).get i' ↔ endMark ∈ (g.follow g.first).get i)) := by
  have hext := hfresh.extends_concat
  have hstart : renumber g g' start = start :=
    renumber_of_isNonTerminal hfresh h' h (wellFormed_of_ofRules h).isNonTerminal_start
  obtain ⟨hlt, rfl⟩ := (sameLabel_iff hext h h').mp hi
  refine ⟨labelSet_first_eq hext (fun _ => hfresh.alternativesFor_concat_of_mem) h h' hlt,
    fun hn => ⟨labelSet_follow_subset hext h h' hn hstart, ?_⟩⟩
  exact (closedPart_fresh hfresh h' h).endMark_mem_get_follow_iff (wellFormed_of_ofRules h)
    (wellFormed_of_ofRules h') hn hstart

end

/-- With a rule at the end for a name that is not in use, there is a grammar again. It has all
symbols of the grammar without that rule, by kind and name. By name, FIRST of every such symbol is
the same, and FOLLOW of every such non-terminal holds what it held, and the end mark only if it did.
The search for left recursion comes to an end. What it reported before, it reports again, and if
there was nothing, it reports something exactly if an alternative of the new non-terminal starts
with it, and then this direct left recursion. -/
theorem sets_and_recursion_of_fresh (hfresh : Rules.Unused rules r.left) (h : ofRules rules = .ok g) :
    ∃ g', ofRules (rules ++ [r]) = .ok g' ∧
      (∀ i < g.symbolCount, ∃ i', SameLabel g g' i i') ∧
      (∀ i i', SameLabel g g' i i' →
        g'.labelSet (g'.first.get i') = g.labelSet (g.first.get i) ∧
        (g.IsNonTerminal i →
          g.labelSet ((g.follow g.first).get i) ⊆ g'.labelSet ((g'.follow g'.first).get i') ∧
          (endMark ∈ (g'.follow g'.first).get i' ↔ endMark ∈ (g.follow g.first).get i))) ∧
      (∃ report?, g'.findLeftRecursion = some report?) ∧
      (∀ report, g.findLeftRecursion = some (some report) →
        g'.findLeftRecursion = some (some report)) ∧
      (g.findLeftRecursion = some none →
        ((∃ report, g'.findLeftRecursion = some (some report)) ↔
          ∃ alternative ∈ r.alternatives, alternative.head? = some r.left) ∧
        ∀ kind recursion, g'.findLeftRecursion = some (some (kind, recursion)) →
          kind = .direct ∧ recursion.nonTerminal = r.left) := by
  obtain ⟨g', h'⟩ : ∃ g', ofRules (rules ++ [r]) = .ok g' :=
    exists_ofRules_eq_ok_iff.mpr (by simp)
  have hext := hfresh.extends_concat
  have hsearch := findLeftRecursion_eq (wellFormed_of_ofRules h)
  have hsearch' := findLeftRecursion_eq (wellFormed_of_ofRules h')
  refine ⟨g', h', fun i hi => ⟨renumber g g' i, (sameLabel_iff hext h h').mpr ⟨hi, rfl⟩⟩,
    fun i i' hi => sets_of_fresh hfresh h' h hi, ⟨_, hsearch'⟩, fun report hreport => ?_,
    fun hnone => ?_⟩
  · rw [hsearch, Option.some_inj, Option.map_eq_some_iff] at hreport
    obtain ⟨recursion, hrecursion, rfl⟩ := hreport
    rw [hsearch', leftRecursion?_fresh hfresh h' h, hrecursion]
    rfl
  · rw [hsearch, Option.some_inj, Option.map_eq_none_iff] at hnone
    rw [findLeftRecursion_fresh hfresh h' h hnone, ← isSome_leftCycle?_fresh_iff hfresh h' h]
    cases g'.leftCycle? (number g'.names r.left) with
    | none => simp
    | some cycle =>
      refine ⟨⟨fun _ => rfl, fun _ => ⟨_, rfl⟩⟩, fun kind recursion hreport => ?_⟩
      obtain ⟨rfl, rfl⟩ := Prod.mk.inj (Option.some.inj (Option.some.inj hreport))
      exact ⟨rfl, name_fresh hfresh h'⟩

/-- Rules without left recursion. -/
def closedRules : List Rule :=
  [⟨"S", [["A", "b"], []]⟩, ⟨"A", [["a", "S"]]⟩]

/-- The grammar of `closedRules`. -/
def closedGrammar : Grammar :=
  ⟨[⟨"S", [[3, 4], []]⟩, ⟨"A", [[5, 2]]⟩], ["b", "a"]⟩

/-- A rule that uses the old symbols and itself, and brings in another one. -/
def freshRule : Rule :=
  ⟨"N", [["S", "c"], ["N", "A"]]⟩

/-- The grammar of `closedRules` and `freshRule`. -/
def freshGrammar : Grammar :=
  ⟨[⟨"S", [[3, 5], []]⟩, ⟨"A", [[6, 2]]⟩, ⟨"N", [[2, 7], [4, 3]]⟩], ["b", "a", "c"]⟩

/-- FIRST of `S` is the same by name, and the end still comes next to it. Only `N` is left recursive.
Where there was left recursion before, the report does not come to `N`. -/
theorem sets_and_recursion_of_fresh_using :
    (ofRules (closedRules ++ [freshRule]) = .ok freshGrammar ∧
      freshGrammar.labelSet (freshGrammar.first.get 2) =
        closedGrammar.labelSet (closedGrammar.first.get 2) ∧
      closedGrammar.labelSet ((closedGrammar.follow closedGrammar.first).get 2) ⊆
        freshGrammar.labelSet ((freshGrammar.follow freshGrammar.first).get 2) ∧
      endMark ∈ (freshGrammar.follow freshGrammar.first).get 2 ∧
      ∃ recursion, freshGrammar.findLeftRecursion = some (some (.direct, recursion)) ∧
        recursion.nonTerminal = "N") ∧
    ∃ g', ofRules (cycleRules ++ [freshRule]) = .ok g' ∧
      g'.findLeftRecursion = some (some (.indirect, cycleReport)) := by
  have hclosed : ofRules closedRules = .ok closedGrammar := by decide +kernel
  have hok : ofRules (closedRules ++ [freshRule]) = .ok freshGrammar := by decide +kernel
  have hcycle : ofRules cycleRules = .ok cycleGrammar := by decide +kernel
  have hnone : closedGrammar.leftRecursion? = none := by cbv
  refine ⟨?_, ?_⟩
  · obtain ⟨g', h', -, hsets, -, -, hrecursion⟩ :=
      sets_and_recursion_of_fresh (r := freshRule) (by decide) hclosed
    obtain rfl : freshGrammar = g' := Except.ok.inj (hok.symm.trans h')
    obtain ⟨hfirst, hfollow⟩ := hsets 2 2 (by decide +kernel)
    obtain ⟨hsub, hend⟩ := hfollow (by decide)
    obtain ⟨hiff, hdirect⟩ := hrecursion (by
      rw [findLeftRecursion_eq (wellFormed_of_ofRules hclosed), hnone]
      rfl)
    obtain ⟨⟨kind, recursion⟩, hreport⟩ := hiff.mpr ⟨["N", "A"], by decide, rfl⟩
    obtain ⟨rfl, hname⟩ := hdirect kind recursion hreport
    exact ⟨hok, hfirst, hsub, hend.mpr (by decide +kernel), recursion, hreport, hname⟩
  · obtain ⟨g', h', -, -, -, hsame, -⟩ :=
      sets_and_recursion_of_fresh (r := freshRule) (by decide) hcycle
    refine ⟨g', h', hsame _ ?_⟩
    rw [findLeftRecursion_eq (wellFormed_of_ofRules hcycle), leftRecursion?_cycleGrammar]
    rfl

end Grammar

end Lookahead
