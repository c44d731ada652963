import Lookahead.Proofs.Embedding
import Lookahead.Proofs.Grammar.Labels

/-!
# Rules with more alternatives

Rules extend others (`Rules.Extends`) if they have at least their left sides and alternatives, and
what was a terminal still is one. The grammar of the longer rules numbers its symbols in its own
way, and `Grammar.renumber` leads from the old numbers to the new ones by name. This embeds the old
grammar in the new one (`embeds_of_extends`), and it is the one map that keeps kinds and names
(`sameLabel_iff`).
-/

namespace Lookahead

open Grammar (start epsilon endMark)
open Rules (number leftSides alternativesFor rightNames terminalNames)

namespace Rules

variable {rules rules' : List Rule} {left name : String}

/-- The left sides and the alternatives of `rules` are among those of `rules'`, which define no
name that `rules` only use. -/
structure Extends (rules rules' : List Rule) : Prop where
  mem_leftSides : ∀ left ∈ leftSides rules, left ∈ leftSides rules'
  mem_alternativesFor : ∀ left, ∀ alternative ∈ alternativesFor rules left,
    alternative ∈ alternativesFor rules' left
  not_mem_leftSides : ∀ name ∈ rightNames rules, name ∉ leftSides rules → name ∉ leftSides rules'

theorem mem_rightNames : name ∈ rightNames rules ↔
    ∃ left ∈ leftSides rules, ∃ alternative ∈ alternativesFor rules left, name ∈ alternative := by
  simp [rightNames]

instance (rules rules' : List Rule) : Decidable (Extends rules rules') :=
  decidable_of_iff ((∀ left ∈ leftSides rules, left ∈ leftSides rules' ∧
      ∀ alternative ∈ alternativesFor rules left, alternative ∈ alternativesFor rules' left) ∧
    ∀ name ∈ rightNames rules, name ∉ leftSides rules → name ∉ leftSides rules') <| by
    constructor
    · rintro ⟨h, hright⟩
      refine ⟨fun left hleft => (h left hleft).1, fun left alternative halt => ?_, hright⟩
      by_cases hleft : left ∈ leftSides rules
      · exact (h left hleft).2 alternative halt
      · simp [alternativesFor_eq_nil hleft] at halt
    · rintro ⟨hleft, halt, hright⟩
      exact ⟨fun left h => ⟨hleft left h, halt left⟩, hright⟩

theorem Extends.mem_rightNames (h : Extends rules rules') (hname : name ∈ rightNames rules) :
    name ∈ rightNames rules' := by
  obtain ⟨left, hleft, alternative, halt, hname⟩ := Rules.mem_rightNames.mp hname
  exact mem_rightNames_of_mem_alternativesFor (h.mem_leftSides left hleft)
    (h.mem_alternativesFor left alternative halt) hname

end Rules

namespace Grammar

variable {g g' : Grammar} {rules rules' : List Rule} {i i' : Nat} {left name : String}

/-! ## What rules make -/

theorem isNonTerminal_number (h : ofRules rules = .ok g) (hleft : left ∈ leftSides rules) :
    g.IsNonTerminal (number g.names left) := by
  obtain ⟨i, hi, -, hindex⟩ := exists_isNonTerminal_of_mem_leftSides h hleft
  have hmem : left ∈ g.names := names_of_ofRules h ▸ List.mem_append_left _ hleft
  rw [indexOf?_of_mem_names hmem] at hindex
  exact Option.some.inj hindex ▸ hi

theorem name_mem_leftSides (h : ofRules rules = .ok g) (hi : g.IsNonTerminal i) :
    g.name i ∈ leftSides rules := by
  obtain ⟨k, rfl⟩ := Nat.exists_eq_add_of_le hi.1
  have hk : k < (leftSides rules).length := by
    rw [← length_nonTerminals_of_ofRules h]
    exact Nat.lt_of_add_lt_add_left hi.2
  rw [Grammar.name, name?_eq_getElem? (Nat.le_add_right _ _), Nat.add_sub_cancel_left,
    names_of_ofRules h, List.getElem?_append_left hk, List.getElem?_eq_getElem hk]
  exact List.getElem_mem hk

theorem name_mem_terminalNames (h : ofRules rules = .ok g) (hi : g.IsTerminal i) :
    g.name i ∈ terminalNames rules := by
  obtain ⟨name, hs⟩ := symbol?_of_isTerminal hi
  obtain ⟨k, rfl⟩ := Nat.exists_eq_add_of_le hi.1
  rw [name_of_symbol? hs, Symbol.name, ← (ofRules_eq_ok h).2.2]
  rw [Nat.add_assoc, symbol?_start_add, List.getElem?_append_right (by simp)] at hs
  simpa using List.mem_of_getElem? hs

/-- The alternatives of a left side by number. -/
theorem alternatives_number (h : ofRules rules = .ok g) (hleft : left ∈ leftSides rules) :
    g.alternatives (number g.names left) =
      (alternativesFor rules left).map (·.map (number g.names)) := by
  obtain ⟨-, hn, -⟩ := ofRules_eq_ok h
  obtain ⟨k, hk⟩ := exists_idxOf?_eq_some hleft
  obtain ⟨hlt, hget, -⟩ := List.idxOf?_eq_some_iff.mp hk
  have hnumber : number g.names left = start + k := by
    rw [names_of_ofRules h, number_append_of_mem hleft, number, hk]
  rw [alternatives, nonTerminal?, hnumber, if_pos (Nat.le_add_right _ _),
    Nat.add_sub_cancel_left, hn, List.getElem?_map, List.getElem?_eq_getElem hlt, hget, names_of_ofRules h]
  rfl

theorem name_mem_names (hi : start ≤ i) (hlt : i < g.symbolCount) : g.name i ∈ g.names := by
  rw [symbolCount_eq_length_names] at hlt
  have hk : i - start < g.names.length := by omega
  rw [Grammar.name, name?_eq_getElem? hi, List.getElem?_eq_getElem hk]
  exact List.getElem_mem hk

theorem number_name (h : ofRules rules = .ok g) (hi : start ≤ i)
    (hlt : i < g.symbolCount) : number g.names (g.name i) = i := by
  have hindex := (wellFormed_of_ofRules h).indexOf?_name hi hlt
  rw [indexOf?_of_mem_names (name_mem_names hi hlt)] at hindex
  exact Option.some.inj hindex

/-- The productions are the alternatives of the rules by number. -/
theorem mem_productions_of_ofRules (h : ofRules rules = .ok g) {p : Production} :
    p ∈ g.productions ↔ ∃ left ∈ leftSides rules, ∃ alternative ∈ alternativesFor rules left,
      p = ⟨number g.names left, alternative.map (number g.names)⟩ := by
  rw [mem_productions]
  constructor
  · intro hp
    have hi := g.isNonTerminal_of_mem_productions (g.mem_productions.mpr hp)
    have hleft := name_mem_leftSides h hi
    have hnumber := number_name h hi.1 hi.lt_symbolCount
    rw [← hnumber, alternatives_number h hleft] at hp
    obtain ⟨alternative, halt, hright⟩ := List.mem_map.mp hp
    exact ⟨g.name p.left, hleft, alternative, halt, by rw [hnumber, hright]⟩
  · rintro ⟨left, hleft, alternative, halt, rfl⟩
    rw [alternatives_number h hleft]
    exact List.mem_map.mpr ⟨alternative, halt, rfl⟩

/-! ## Other numbers for the same names -/

/-- The number that `g'` has for the symbol with the number `i`. -/
def renumber (g g' : Grammar) (i : Nat) : Nat :=
  if i < start then i else number g'.names (g.name i)

theorem renumber_of_start_le (hi : start ≤ i) :
    renumber g g' i = number g'.names (g.name i) :=
  if_neg (Nat.not_lt.mpr hi)

/-- The start symbol stays the start symbol if its rule stays the first. -/
theorem renumber_start (h : ofRules rules = .ok g) (h' : ofRules rules' = .ok g')
    (hhead : rules.head?.map (·.left) = rules'.head?.map (·.left)) :
    renumber g g' start = start := by
  have hname : g.name start = g'.name start := by
    rw [name_start_of_ofRules h, name_start_of_ofRules h'] at hhead
    exact Option.some.inj hhead
  rw [renumber_of_start_le (Nat.le_refl _), hname]
  exact number_name h' (Nat.le_refl _)
    (wellFormed_of_ofRules h').isNonTerminal_start.lt_symbolCount

section

variable (hext : Rules.Extends rules rules') (h : ofRules rules = .ok g)
  (h' : ofRules rules' = .ok g')
include hext h h'

/-- The number of a name becomes the other number of that name. -/
theorem renumber_number (hname : name ∈ leftSides rules ∨ name ∈ rightNames rules) :
    renumber g g' (number g.names name) = number g'.names name := by
  by_cases hmem : name ∈ g.names
  · obtain ⟨k, hk⟩ := exists_idxOf?_eq_some hmem
    have hle : start ≤ number g.names name := by
      rw [number, hk]
      exact Nat.le_add_right _ _
    rw [renumber_of_start_le hle, name_number (Or.inl hmem)]
  · -- a name without a place is that of the empty string, and has no place in `g'` either
    rw [names_of_ofRules h] at hmem
    have hleft : name ∉ leftSides rules := fun hl => hmem (List.mem_append_left _ hl)
    have hright := hname.resolve_left hleft
    obtain rfl := (Rules.mem_names_or_eq_of_mem_rightNames hright).resolve_left hmem
    have hmem' : epsilonName ∉ g'.names := by
      rw [names_of_ofRules h', List.mem_append, Rules.mem_terminalNames]
      simp [hext.not_mem_leftSides _ hright hleft]
    rw [names_of_ofRules h, number_of_not_mem hmem, number_of_not_mem hmem']
    rfl

/-- The grammar of rules is embedded in that of any rules that extend them. -/
theorem embeds_of_extends : Embeds g g' (renumber g g') where
  epsilon := rfl
  endMark := rfl
  isNonTerminal i hi := by
    rw [renumber_of_start_le hi.1]
    exact isNonTerminal_number h' (hext.mem_leftSides _ (name_mem_leftSides h hi))
  isTerminal i hi := by
    obtain ⟨hright, hleft, heps⟩ := Rules.mem_terminalNames.mp (name_mem_terminalNames h hi)
    have hstart : start ≤ i := Nat.le_trans (Nat.le_add_right _ _) hi.1
    rw [renumber_of_start_le hstart, isTerminal_number_iff h' (hext.mem_rightNames hright)]
    exact ⟨hext.not_mem_leftSides _ hright hleft, heps⟩
  mem_productions p hp := by
    obtain ⟨left, hleft, alternative, halt, rfl⟩ := (mem_productions_of_ofRules h).mp hp
    refine (mem_productions_of_ofRules h').mpr ⟨left, hext.mem_leftSides left hleft, alternative,
      hext.mem_alternativesFor left alternative halt, ?_⟩
    have hright : alternative.map (renumber g g' ∘ number g.names) =
        alternative.map (number g'.names) :=
      List.map_congr_left fun name hname => renumber_number hext h h'
        (Or.inr (Rules.mem_rightNames_of_mem_alternativesFor hleft halt hname))
    rw [Production.map, renumber_number hext h h' (Or.inl hleft), List.map_map, hright]

theorem name_mem_names_of_extends (hi : start ≤ i) (hlt : i < g.symbolCount) :
    g.name i ∈ g'.names := by
  rw [names_of_ofRules h', List.mem_append]
  rcases isNonTerminal_or_isTerminal hi hlt with hn | ht
  · exact Or.inl (hext.mem_leftSides _ (name_mem_leftSides h hn))
  · obtain ⟨hright, hleft, heps⟩ := Rules.mem_terminalNames.mp (name_mem_terminalNames h ht)
    exact Or.inr (Rules.mem_terminalNames.mpr
      ⟨hext.mem_rightNames hright, hext.not_mem_leftSides _ hright hleft, heps⟩)

/-- Every symbol keeps its name. -/
theorem name_renumber (hi : i < g.symbolCount) : g'.name (renumber g g' i) = g.name i := by
  have hplaced (hle : start ≤ i) : g'.name (renumber g g' i) = g.name i := by
    rw [renumber_of_start_le hle,
      name_number (Or.inl (name_mem_names_of_extends hext h h' hle hi))]
  rcases cases_of_lt_symbolCount hi with rfl | rfl | hn | ht
  · rfl
  · rfl
  · exact hplaced hn.1
  · exact hplaced (Nat.le_trans (Nat.le_add_right _ _) ht.1)

theorem label?_renumber (hi : i < g.symbolCount) : g'.label? (renumber g g' i) = g.label? i := by
  have he := embeds_of_extends hext h h'
  have hname := name_renumber hext h h' hi
  rcases cases_of_lt_symbolCount hi with rfl | rfl | hn | ht
  · rfl
  · rfl
  · rw [label?_of_isNonTerminal hn, label?_of_isNonTerminal (he.isNonTerminal i hn), hname]
  · rw [label?_of_isTerminal ht, label?_of_isTerminal (he.isTerminal i ht), hname]

/-- A symbol of the grammar is the same as that with its other number, and as no other. -/
theorem sameLabel_iff : SameLabel g g' i i' ↔ i < g.symbolCount ∧ i' = renumber g g' i := by
  constructor
  · rintro ⟨l, hl, hl'⟩
    have hi : i < g.symbolCount := label?_isSome_iff.mp (by simp [hl])
    have hi' : i' < g'.symbolCount := label?_isSome_iff.mp (by simp [hl'])
    refine ⟨hi, (wellFormed_of_ofRules h').label?_injective hi' ?_⟩
    rw [label?_renumber hext h h' hi, hl, hl']
  · rintro ⟨hi, rfl⟩
    obtain ⟨l, hl⟩ := Option.isSome_iff_exists.mp (label?_isSome_iff.mpr hi)
    exact ⟨l, hl, by rw [label?_renumber hext h h' hi, hl]⟩

/-! ## Sets by label -/

/-- Numbers that become other numbers of the same names keep their labels. -/
theorem labelSet_subset {s s' : IndexSet} (hs : ∀ k ∈ s, k < g.symbolCount)
    (hsub : ∀ k ∈ s, renumber g g' k ∈ s') : g.labelSet s ⊆ g'.labelSet s' := by
  rintro _ ⟨k, hk, rfl⟩
  exact ⟨_, hsub k hk, label?_renumber hext h h' (hs k hk)⟩

theorem labelSet_first_subset (hi : i < g.symbolCount) :
    g.labelSet (g.first.get i) ⊆ g'.labelSet (g'.first.get (renumber g g' i)) :=
  labelSet_subset hext h h' (g.within_first.lt i) fun _ =>
    (embeds_of_extends hext h h').mem_get_first (wellFormed_of_ofRules h)
      (wellFormed_of_ofRules h') hi

theorem labelSet_follow_subset (hi : g.IsNonTerminal i) (hstart : renumber g g' start = start) :
    g.labelSet ((g.follow g.first).get i) ⊆
      g'.labelSet ((g'.follow g'.first).get (renumber g g' i)) :=
  labelSet_subset hext h h' (g.within_follow.lt i) fun _ hk =>
    (embeds_of_extends hext h h').mem_get_follow (wellFormed_of_ofRules h)
      (wellFormed_of_ofRules h') hi hk (Or.inr hstart)

/-- Whatever the start symbols are, only the end mark can be missing. -/
theorem labelSet_follow_diff_subset (hi : g.IsNonTerminal i) :
    g.labelSet ((g.follow g.first).get i) \ {some .endMark} ⊆
      g'.labelSet ((g'.follow g'.first).get (renumber g g' i)) \ {some .endMark} := by
  rintro _ ⟨⟨k, hk, rfl⟩, hne⟩
  have hk' : k ≠ endMark := by
    rintro rfl
    exact hne rfl
  refine ⟨⟨_, ?_, label?_renumber hext h h' (g.within_follow.lt i k hk)⟩, hne⟩
  exact (embeds_of_extends hext h h').mem_get_follow (wellFormed_of_ofRules h)
    (wellFormed_of_ofRules h') hi hk (Or.inl hk')

/-- Every symbol keeps its kind and name. -/
theorem labels_subset_of_extends : g.labels ⊆ g'.labels := by
  intro l hl
  obtain ⟨i, hi, hget⟩ := List.mem_iff_getElem.mp hl
  have hlt : i < g.symbolCount := g.length_labels ▸ hi
  have hsame := label?_renumber hext h h' hlt
  rw [label?, label?, List.getElem?_eq_getElem hi, hget] at hsame
  exact List.mem_of_getElem? hsame

end

end Grammar

end Lookahead
