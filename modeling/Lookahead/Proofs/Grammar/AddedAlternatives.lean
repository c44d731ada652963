import Lookahead.Proofs.Grammar.Extension

/-!
# Another rule for a left side

A rule for a name that is a left side already adds alternatives, and maybe terminals, which take
their numbers between the old ones. The rules extend those without it, so by name all that was
first, next or nullable is still so, and left recursion stays. Only for the end mark, the start
symbol has to be the same, so the rule must not come first.
-/

namespace Lookahead

open Grammar (start)
open Rules (leftSides alternativesFor)

namespace Rules

variable {front back : List Rule} {r : Rule} {name : String}

theorem mem_leftSides_insert (hr : r.left ∈ leftSides (front ++ back)) :
    name ∈ leftSides (front ++ r :: back) ↔ name ∈ leftSides (front ++ back) := by
  simp only [mem_leftSides, List.mem_append, List.mem_cons] at hr ⊢
  constructor
  · rintro ⟨r', hr' | rfl | hr', rfl⟩
    · exact ⟨r', Or.inl hr', rfl⟩
    · exact hr
    · exact ⟨r', Or.inr hr', rfl⟩
  · rintro ⟨r', hr' | hr', rfl⟩
    · exact ⟨r', Or.inl hr', rfl⟩
    · exact ⟨r', Or.inr (Or.inr hr'), rfl⟩

theorem extends_insert (hr : r.left ∈ leftSides (front ++ back)) :
    Extends (front ++ back) (front ++ r :: back) where
  mem_leftSides _ hleft := (mem_leftSides_insert hr).mpr hleft
  mem_alternativesFor left alternative halt := by
    obtain ⟨r', hr', hleft, halt⟩ := mem_alternativesFor.mp halt
    refine mem_alternativesFor.mpr ⟨r', ?_, hleft, halt⟩
    exact (List.sublist_cons_self r back).append_left front |>.subset hr'
  not_mem_leftSides _ _ hleft := fun h => hleft ((mem_leftSides_insert hr).mp h)

end Rules

namespace Grammar

variable {g g' : Grammar} {rules rules' front back : List Rule} {r : Rule} {i i' : Nat}

/-- By name, the sets of rules that extend others and start with the same left side hold what those
of the others hold. -/
theorem sets_subset_of_extends (hext : Rules.Extends rules rules') (h : ofRules rules = .ok g)
    (h' : ofRules rules' = .ok g')
    (hhead : rules.head?.map (·.left) = rules'.head?.map (·.left)) (hi : SameLabel g g' i i') :
    g.labelSet (g.first.get i) ⊆ g'.labelSet (g'.first.get i') ∧
    (g.first.IsNullable i → g'.first.IsNullable i') ∧
    (g.IsNonTerminal i →
      g.labelSet ((g.follow g.first).get i) ⊆ g'.labelSet ((g'.follow g'.first).get i')) := by
  obtain ⟨hlt, rfl⟩ := (sameLabel_iff hext h h').mp hi
  refine ⟨labelSet_first_subset hext h h' hlt, fun hnull => ?_,
    fun hn => labelSet_follow_subset hext h h' hn (renumber_start h h' hhead)⟩
  have he := embeds_of_extends hext h h'
  have hmem := he.mem_get_first (wellFormed_of_ofRules h) (wellFormed_of_ofRules h') hlt hnull
  rwa [he.epsilon] at hmem

/-- With another rule for a left side, anywhere behind the first rule, there is a grammar again. It
has all symbols of the grammar without that rule, by kind and name. By name, FIRST of every such
symbol and FOLLOW of every such non-terminal holds what it held without the rule, what was nullable
is nullable, and if there was left recursion, there is. -/
theorem sets_subset_of_insert (hfront : front ≠ []) (hr : r.left ∈ leftSides (front ++ back))
    (h : ofRules (front ++ back) = .ok g) :
    ∃ g', ofRules (front ++ r :: back) = .ok g' ∧
      (∀ i < g.symbolCount, ∃ i', SameLabel g g' i i') ∧
      (∀ i i', SameLabel g g' i i' →
        g.labelSet (g.first.get i) ⊆ g'.labelSet (g'.first.get i') ∧
        (g.first.IsNullable i → g'.first.IsNullable i') ∧
        (g.IsNonTerminal i →
          g.labelSet ((g.follow g.first).get i) ⊆ g'.labelSet ((g'.follow g'.first).get i'))) ∧
      (g.leftRecursion?.isSome → g'.leftRecursion?.isSome) := by
  obtain ⟨g', h'⟩ : ∃ g', ofRules (front ++ r :: back) = .ok g' :=
    exists_ofRules_eq_ok_iff.mpr (by simp)
  have hext : Rules.Extends (front ++ back) (front ++ r :: back) := Rules.extends_insert hr
  have hhead : (front ++ back).head?.map (·.left) = (front ++ r :: back).head?.map (·.left) := by
    rw [List.head?_append_of_ne_nil _ hfront, List.head?_append_of_ne_nil _ hfront]
  refine ⟨g', h', fun i hi => ⟨renumber g g' i, (sameLabel_iff hext h h').mpr ⟨hi, rfl⟩⟩,
    fun i i' hsame => sets_subset_of_extends hext h h' hhead hsame,
    (embeds_of_extends hext h h').isSome_leftRecursion?⟩

/-- Rules for `S` and `B`. -/
def frontRules : List Rule :=
  [⟨"S", [["A", "b"], ["B"], ["S", "d"]]⟩, ⟨"B", [[]]⟩]

/-- A rule for `A` with other terminals in front of those of the later rule. -/
def insertedRule : Rule :=
  ⟨"A", [["x", "S", "Y"], []]⟩

/-- The grammar of `frontRules` and a rule for `A`. -/
def shortGrammar : Grammar :=
  ⟨[⟨"S", [[4, 5], [3], [2, 6]]⟩, ⟨"B", [[]]⟩, ⟨"A", [[7]]⟩], ["b", "d", "c"]⟩

/-- The same with `insertedRule` in between. -/
def longGrammar : Grammar :=
  ⟨[⟨"S", [[4, 5], [3], [2, 6]]⟩, ⟨"B", [[]]⟩, ⟨"A", [[7, 2, 8], [], [9]]⟩],
    ["b", "d", "x", "Y", "c"]⟩

/-- The number of `c` is another. FIRST of `A` and FOLLOW of `S` are larger, `S` is nullable and
left recursive as before. -/
theorem sets_subset_of_insert_between :
    ofRules (frontRules ++ insertedRule :: [⟨"A", [["c"]]⟩]) = .ok longGrammar ∧
    SameLabel shortGrammar longGrammar 7 9 ∧
    shortGrammar.labelSet (shortGrammar.first.get 4) ⊆
      longGrammar.labelSet (longGrammar.first.get 4) ∧
    longGrammar.first.IsNullable 2 ∧
    shortGrammar.labelSet ((shortGrammar.follow shortGrammar.first).get 2) ⊆
      longGrammar.labelSet ((longGrammar.follow longGrammar.first).get 2) ∧
    longGrammar.leftRecursion?.isSome := by
  have hshort : ofRules (frontRules ++ [⟨"A", [["c"]]⟩]) = .ok shortGrammar := by decide +kernel
  have hlong : ofRules (frontRules ++ insertedRule :: [⟨"A", [["c"]]⟩]) = .ok longGrammar := by
    decide +kernel
  obtain ⟨g', h', -, hsets, hrecursion⟩ :=
    sets_subset_of_insert (r := insertedRule) (by decide) (by decide) hshort
  obtain rfl : longGrammar = g' := Except.ok.inj (hlong.symm.trans h')
  obtain ⟨-, hnull, hfollow⟩ := hsets 2 2 (by decide +kernel)
  exact ⟨hlong, by decide +kernel, (hsets 4 4 (by decide +kernel)).1, hnull (by decide +kernel),
    hfollow (by decide), hrecursion (by cbv)⟩

end Grammar

end Lookahead
