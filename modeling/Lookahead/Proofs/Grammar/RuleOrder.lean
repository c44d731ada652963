import Lookahead.Proofs.Grammar.Extension

/-!
# The order of rules

Rules may be given in any order and more than once, and so may the alternatives of a rule
(`Rules.SameContent`). The symbols are numbered differently then, and the sets are computed by other
passes over other productions. But each of the two grammars is embedded in the other, so by name
they have the same sets and the same left recursion.

`sets_eq_of_sameContent` : only the end mark depends on what comes first, as it follows the start
symbol.
-/

namespace Lookahead

open Grammar (start)
open Rules (leftSides alternativesFor)

namespace Rules

variable {rules rules' : List Rule}

/-- The rules have the same left sides, and for each of them the same set of alternatives. -/
structure SameContent (rules rules' : List Rule) : Prop where
  mem_leftSides_iff : ∀ left, left ∈ leftSides rules ↔ left ∈ leftSides rules'
  mem_alternativesFor_iff : ∀ left alternative,
    alternative ∈ alternativesFor rules left ↔ alternative ∈ alternativesFor rules' left

theorem SameContent.symm (h : SameContent rules rules') : SameContent rules' rules :=
  ⟨fun left => (h.mem_leftSides_iff left).symm,
    fun left alternative => (h.mem_alternativesFor_iff left alternative).symm⟩

theorem SameContent.extension (h : SameContent rules rules') : Extends rules rules' where
  mem_leftSides left := (h.mem_leftSides_iff left).mp
  mem_alternativesFor left alternative := (h.mem_alternativesFor_iff left alternative).mp
  not_mem_leftSides name _ hname hname' := hname ((h.mem_leftSides_iff name).mpr hname')

theorem sameContent_iff : SameContent rules rules' ↔ Extends rules rules' ∧ Extends rules' rules :=
  ⟨fun h => ⟨h.extension, h.symm.extension⟩, fun ⟨h, h'⟩ =>
    ⟨fun left => ⟨h.mem_leftSides left, h'.mem_leftSides left⟩,
      fun left alternative =>
        ⟨h.mem_alternativesFor left alternative, h'.mem_alternativesFor left alternative⟩⟩⟩

instance (rules rules' : List Rule) : Decidable (SameContent rules rules') :=
  decidable_of_iff _ sameContent_iff.symm

end Rules

namespace Grammar

variable {g g' : Grammar} {rules rules' : List Rule} {i i' : Nat}

section

variable (hsame : Rules.SameContent rules rules') (h : ofRules rules = .ok g)
  (h' : ofRules rules' = .ok g')
include hsame h h'

theorem labels_perm : g.labels.Perm g'.labels := by
  refine (List.perm_ext_iff_of_nodup (wellFormed_of_ofRules h).nodup_labels
    (wellFormed_of_ofRules h').nodup_labels).mpr fun l => ?_
  exact ⟨fun hl => labels_subset_of_extends hsame.extension h h' hl,
    fun hl => labels_subset_of_extends hsame.symm.extension h' h hl⟩

/-- The numbers of one symbol lead to each other. -/
theorem eq_renumber_of_sameLabel (hi : SameLabel g g' i i') :
    i' = renumber g g' i ∧ i = renumber g' g i' :=
  ⟨((sameLabel_iff hsame.extension h h').mp hi).2,
    ((sameLabel_iff hsame.symm.extension h' h).mp hi.symm).2⟩

theorem isNonTerminal_of_sameLabel (hi : SameLabel g g' i i') (hn : g.IsNonTerminal i) :
    g'.IsNonTerminal i' := by
  obtain ⟨rfl, -⟩ := eq_renumber_of_sameLabel hsame h h' hi
  exact (embeds_of_extends hsame.extension h h').isNonTerminal i hn

theorem labelSet_first_subset_of_sameLabel (hi : SameLabel g g' i i') :
    g.labelSet (g.first.get i) ⊆ g'.labelSet (g'.first.get i') := by
  obtain ⟨hlt, rfl⟩ := (sameLabel_iff hsame.extension h h').mp hi
  exact labelSet_first_subset hsame.extension h h' hlt

theorem labelSet_follow_diff_subset_of_sameLabel (hi : SameLabel g g' i i')
    (hn : g.IsNonTerminal i) : g.labelSet ((g.follow g.first).get i) \ {some .endMark} ⊆
      g'.labelSet ((g'.follow g'.first).get i') \ {some .endMark} := by
  obtain ⟨rfl, -⟩ := eq_renumber_of_sameLabel hsame h h' hi
  exact labelSet_follow_diff_subset hsame.extension h h' hn

theorem labelSet_follow_subset_of_sameLabel (hi : SameLabel g g' i i') (hn : g.IsNonTerminal i)
    (hhead : rules.head?.map (·.left) = rules'.head?.map (·.left)) :
    g.labelSet ((g.follow g.first).get i) ⊆ g'.labelSet ((g'.follow g'.first).get i') := by
  obtain ⟨rfl, -⟩ := eq_renumber_of_sameLabel hsame h h' hi
  exact labelSet_follow_subset hsame.extension h h' hn (renumber_start h h' hhead)

end

/-- Rules of the same content make a grammar, or fail, together. The grammars have the same symbols
by kind and name, each of them once. By name, FIRST of every symbol is the same, and FOLLOW of every
non-terminal is the same but for the end mark, and also in that if the first left side is the same.
The one grammar has left recursion if and only if the other has. -/
theorem sets_eq_of_sameContent (hsame : Rules.SameContent rules rules') :
    (∀ e, ofRules rules = .error e ↔ ofRules rules' = .error e) ∧
    ∀ g g', ofRules rules = .ok g → ofRules rules' = .ok g' →
      (g.labels.Perm g'.labels ∧ g.labels.Nodup) ∧
      (∀ i i', SameLabel g g' i i' →
        g.labelSet (g.first.get i) = g'.labelSet (g'.first.get i') ∧
        (g.IsNonTerminal i →
          g.labelSet ((g.follow g.first).get i) \ {some .endMark} =
            g'.labelSet ((g'.follow g'.first).get i') \ {some .endMark} ∧
          (rules.head?.map (·.left) = rules'.head?.map (·.left) →
            g.labelSet ((g.follow g.first).get i) = g'.labelSet ((g'.follow g'.first).get i')))) ∧
      (g.leftRecursion?.isSome ↔ g'.leftRecursion?.isSome) := by
  refine ⟨fun e => ?_, fun g g' h h' => ⟨⟨labels_perm hsame h h',
    (wellFormed_of_ofRules h).nodup_labels⟩, fun i i' hi => ⟨?_, fun hn => ⟨?_, fun hhead => ?_⟩⟩,
    ?_⟩⟩
  · have hnil : rules = [] ↔ rules' = [] := by
      rw [← Rules.leftSides_eq_nil_iff, ← Rules.leftSides_eq_nil_iff]
      simp only [List.eq_nil_iff_forall_not_mem, hsame.mem_leftSides_iff]
    rw [ofRules_eq_error_iff, ofRules_eq_error_iff, hnil]
  · exact (labelSet_first_subset_of_sameLabel hsame h h' hi).antisymm
      (labelSet_first_subset_of_sameLabel hsame.symm h' h hi.symm)
  · have hn' := isNonTerminal_of_sameLabel hsame h h' hi hn
    exact (labelSet_follow_diff_subset_of_sameLabel hsame h h' hi hn).antisymm
      (labelSet_follow_diff_subset_of_sameLabel hsame.symm h' h hi.symm hn')
  · have hn' := isNonTerminal_of_sameLabel hsame h h' hi hn
    exact (labelSet_follow_subset_of_sameLabel hsame h h' hi hn hhead).antisymm
      (labelSet_follow_subset_of_sameLabel hsame.symm h' h hi.symm hn' hhead.symm)
  · exact ⟨(embeds_of_extends hsame.extension h h').isSome_leftRecursion?,
      (embeds_of_extends hsame.symm.extension h' h).isSome_leftRecursion?⟩

/-- Rules with left recursion over two left sides. -/
def orderedRules : List Rule :=
  [⟨"S", [["A", "b"], ["ε"]]⟩, ⟨"A", [["S", "c"], ["c"]]⟩]

/-- The grammar of `orderedRules`. -/
def orderedGrammar : Grammar :=
  ⟨[⟨"S", [[3, 4], [0]]⟩, ⟨"A", [[2, 5], [5]]⟩], ["b", "c"]⟩

/-- The same rules in another order, some of them twice. -/
def shuffledRules : List Rule :=
  [⟨"A", [["c"]]⟩, ⟨"S", [["ε"], ["A", "b"], ["ε"]]⟩, ⟨"A", [["S", "c"], ["c"]]⟩]

/-- The grammar of `shuffledRules`. -/
def shuffledGrammar : Grammar :=
  ⟨[⟨"A", [[4], [3, 4], [4]]⟩, ⟨"S", [[0], [2, 5], [0]]⟩], ["c", "b"]⟩

/-- The grammar of `shuffledRules` with a rule for `S` in front that has no alternatives. -/
def restartedGrammar : Grammar :=
  ⟨[⟨"S", [[0], [3, 4], [0]]⟩, ⟨"A", [[5], [2, 5], [5]]⟩], ["b", "c"]⟩

/-- FIRST of `S` has two numbers and the same labels, and left recursion stays. FOLLOW of `A` gains
the end mark where its rule comes first, and is the same where that of `S` does again. -/
theorem sets_eq_of_sameContent_shuffled :
    (orderedGrammar.labelSet (orderedGrammar.first.get 2) =
        shuffledGrammar.labelSet (shuffledGrammar.first.get 3) ∧
      orderedGrammar.labelSet ((orderedGrammar.follow orderedGrammar.first).get 3) \
          {some .endMark} =
        shuffledGrammar.labelSet ((shuffledGrammar.follow shuffledGrammar.first).get 2) \
          {some .endMark} ∧
      endMark ∈ (shuffledGrammar.follow shuffledGrammar.first).get 2 ∧
      endMark ∉ (orderedGrammar.follow orderedGrammar.first).get 3 ∧
      shuffledGrammar.leftRecursion?.isSome) ∧
    orderedGrammar.labelSet ((orderedGrammar.follow orderedGrammar.first).get 3) =
      restartedGrammar.labelSet ((restartedGrammar.follow restartedGrammar.first).get 3) := by
  have hordered : ofRules orderedRules = .ok orderedGrammar := by decide +kernel
  have hshuffled : ofRules shuffledRules = .ok shuffledGrammar := by decide +kernel
  have hrestarted : ofRules (⟨"S", []⟩ :: shuffledRules) = .ok restartedGrammar := by
    decide +kernel
  obtain ⟨-, hshuffle⟩ := sets_eq_of_sameContent
    (show Rules.SameContent orderedRules shuffledRules by decide +kernel)
  obtain ⟨-, hrestart⟩ := sets_eq_of_sameContent
    (show Rules.SameContent orderedRules (⟨"S", []⟩ :: shuffledRules) by decide +kernel)
  obtain ⟨-, hsets, hrecursion⟩ := hshuffle _ _ hordered hshuffled
  obtain ⟨-, hsets', -⟩ := hrestart _ _ hordered hrestarted
  refine ⟨⟨(hsets 2 3 (by decide +kernel)).1,
    ((hsets 3 2 (by decide +kernel)).2 (by decide)).1, by decide +kernel, by decide +kernel,
    hrecursion.mp (by cbv)⟩, ?_⟩
  exact ((hsets' 3 3 (by decide +kernel)).2 (by decide)).2 rfl

end Grammar

end Lookahead
