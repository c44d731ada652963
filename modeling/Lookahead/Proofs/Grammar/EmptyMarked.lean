import Lookahead.Proofs.Grammar.Spelling
import Lookahead.Proofs.Sets.SameDerivations

/-!
# The empty alternative, written by name

An alternative without symbols may also be written as `ε`. Rules and grammars in which every
empty alternative is written so (`Rules.markEmpty`, `Grammar.markEmpty`) have the same
symbols as before, and the grammar of such rules is such a grammar
(`ofRules_markEmpty`), unless some rule defines `ε` as a non-terminal. The marker stands for
nothing in derivations, so the sets are the same (`sameDerivations_markEmpty`).
-/

namespace Lookahead

open Grammar (epsilon endMark start)

namespace Rules

variable {rules : List Rule} {left : String}

/-- The alternative, written by name if it is empty. -/
def markAlternative (alternative : List String) : List String :=
  if alternative = [] then [epsilonName] else alternative

/-- The rules with every empty alternative written by name. -/
def markEmpty (rules : List Rule) : List Rule :=
  rules.map fun r => ⟨r.left, r.alternatives.map markAlternative⟩

theorem leftSides_markEmpty (rules : List Rule) :
    leftSides (markEmpty rules) = leftSides rules := by
  simp [leftSides, markEmpty, Function.comp_def]

theorem alternativesFor_markEmpty (rules : List Rule) (left : String) :
    alternativesFor (markEmpty rules) left = (alternativesFor rules left).map markAlternative := by
  simp [alternativesFor, markEmpty, List.filter_map, List.flatMap_map, List.map_flatMap,
    Function.comp_def]

theorem filter_markAlternative {p : String → Bool} (hp : p epsilonName = false)
    (alternative : List String) : (markAlternative alternative).filter p = alternative.filter p := by
  unfold markAlternative
  split
  · next h => simp [h, hp]
  · rfl

theorem filter_rightNames_markEmpty {p : String → Bool} (hp : p epsilonName = false)
    (rules : List Rule) : (rightNames (markEmpty rules)).filter p = (rightNames rules).filter p := by
  rw [rightNames, rightNames, leftSides_markEmpty, List.filter_flatMap, List.filter_flatMap]
  refine List.flatMap_congr fun left _ => ?_
  rw [alternativesFor_markEmpty, List.filter_flatten, List.filter_flatten, List.map_map]
  exact congrArg List.flatten (List.map_congr_left fun a _ => filter_markAlternative hp a)

theorem terminalNames_markEmpty (rules : List Rule) :
    terminalNames (markEmpty rules) = terminalNames rules := by
  rw [terminalNames, terminalNames, leftSides_markEmpty,
    filter_rightNames_markEmpty (by simp) rules]

end Rules

namespace Grammar

/-- The right side, with the marker for the empty string in place of nothing. -/
def markRight (right : List Nat) : List Nat :=
  if right = [] then [epsilon] else right

end Grammar

/-- The non-terminal with the marker in place of every empty alternative. -/
def NonTerminal.markEmpty (nt : NonTerminal) : NonTerminal :=
  ⟨nt.name, nt.productions.map Grammar.markRight⟩

/-- The symbol with the marker in place of every empty alternative, if it has alternatives. -/
def Symbol.markEmpty : Symbol → Symbol
  | nonTerminal nt => nonTerminal nt.markEmpty
  | other => other

@[simp] theorem Symbol.name_markEmpty (symbol : Symbol) : symbol.markEmpty.name = symbol.name := by
  cases symbol <;> rfl

namespace Grammar

variable {g : Grammar} {i : Nat} {s u : List Nat}

/-- The grammar with the marker in place of every empty right side. -/
def markEmpty (g : Grammar) : Grammar where
  nonTerminals := g.nonTerminals.map NonTerminal.markEmpty
  terminals := g.terminals

/-! ## Symbols -/

theorem symbols_markEmpty (g : Grammar) : g.markEmpty.symbols = g.symbols.map Symbol.markEmpty := by
  simp [symbols, markEmpty, Symbol.markEmpty, Function.comp_def]

theorem symbol?_markEmpty (g : Grammar) (i : Nat) :
    g.markEmpty.symbol? i = (g.symbol? i).map Symbol.markEmpty := by
  rw [symbol?, symbol?, symbols_markEmpty, List.getElem?_map]

@[simp] theorem names_markEmpty (g : Grammar) : g.markEmpty.names = g.names := by
  simp [names, markEmpty, NonTerminal.markEmpty, Function.comp_def]

@[simp] theorem length_nonTerminals_markEmpty (g : Grammar) :
    g.markEmpty.nonTerminals.length = g.nonTerminals.length := by
  simp [markEmpty]

@[simp] theorem symbolCount_markEmpty (g : Grammar) : g.markEmpty.symbolCount = g.symbolCount := by
  rw [symbolCount_eq, symbolCount_eq, length_nonTerminals_markEmpty]
  rfl

@[simp] theorem name?_markEmpty (g : Grammar) (i : Nat) : g.markEmpty.name? i = g.name? i := by
  rw [name?, name?, symbol?_markEmpty, Option.map_map]
  exact congrArg (Option.map · _) (funext Symbol.name_markEmpty)

@[simp] theorem name_markEmpty (g : Grammar) (i : Nat) : g.markEmpty.name i = g.name i := by
  rw [name, name, name?_markEmpty]

@[simp] theorem indexOf?_markEmpty (g : Grammar) (name : String) :
    g.markEmpty.indexOf? name = g.indexOf? name := by
  rw [indexOf?, indexOf?, names_markEmpty]

/-! ## Productions -/

theorem alternatives_markEmpty (g : Grammar) (i : Nat) :
    g.markEmpty.alternatives i = (g.alternatives i).map markRight := by
  rw [alternatives, alternatives, nonTerminal?, nonTerminal?]
  split
  · simp only [markEmpty, List.getElem?_map]
    cases g.nonTerminals[i - start]? <;> rfl
  · rfl

theorem mem_productions_markEmpty {p : Production} : p ∈ g.markEmpty.productions ↔
    ∃ q ∈ g.productions, p = ⟨q.left, markRight q.right⟩ := by
  rw [mem_productions, alternatives_markEmpty, List.mem_map]
  constructor
  · rintro ⟨right, hright, heq⟩
    exact ⟨⟨p.left, right⟩, g.mem_productions.mpr hright, by rw [heq]⟩
  · rintro ⟨q, hq, rfl⟩
    exact ⟨q.right, g.mem_productions.mp hq, rfl⟩

theorem mem_markRight {right : List Nat} (hi : i ∈ markRight right) : i ∈ right ∨ i = epsilon := by
  unfold markRight at hi
  split at hi
  · exact Or.inr (List.mem_singleton.mp hi)
  · exact Or.inl hi

theorem WellFormed.markEmpty (hg : g.WellFormed) : g.markEmpty.WellFormed where
  nonTerminals_ne_nil := by simpa [Grammar.markEmpty] using hg.nonTerminals_ne_nil
  nodup_names := g.names_markEmpty ▸ hg.nodup_names
  lt_of_mem_right p hp i hi := by
    obtain ⟨q, hq, rfl⟩ := mem_productions_markEmpty.mp hp
    rw [symbolCount_markEmpty]
    rcases mem_markRight hi with hi | rfl
    · exact hg.lt_of_mem_right q hq i hi
    · exact g.epsilon_lt_symbolCount
  ne_endMark_of_mem_right p hp i hi := by
    obtain ⟨q, hq, rfl⟩ := mem_productions_markEmpty.mp hp
    rcases mem_markRight hi with hi | rfl
    · exact hg.ne_endMark_of_mem_right q hq i hi
    · decide

/-! ## Derivations -/

@[simp] theorem unmarked_markRight (right : List Nat) :
    unmarked (markRight right) = unmarked right := by
  unfold markRight
  split
  · next h => simp [h]
  · rfl

theorem sameDerivations_markEmpty (g : Grammar) : SameDerivations g g.markEmpty := by
  refine .of_unmarked g.length_nonTerminals_markEmpty.symm rfl (fun p hp => ?_) fun q hq => ?_
  · exact ⟨_, mem_productions_markEmpty.mpr ⟨p, hp, rfl⟩, rfl, unmarked_markRight p.right⟩
  · obtain ⟨p, hp, rfl⟩ := mem_productions_markEmpty.mp hq
    exact ⟨p, hp, rfl, (unmarked_markRight p.right).symm⟩

/-! ## From rules -/

theorem map_number_markAlternative {names : List String} (h : epsilonName ∉ names)
    (alternative : List String) : (Rules.markAlternative alternative).map (Rules.number names) =
      markRight (alternative.map (Rules.number names)) := by
  have hnumber : Rules.number names epsilonName = epsilon := by
    rw [Rules.number, List.idxOf?_eq_none_iff.mpr h]
  cases alternative with
  | nil => simp [Rules.markAlternative, markRight, hnumber]
  | cons name rest => simp [Rules.markAlternative, markRight]

/-- Rules with every empty alternative written by name make the grammar with the marker in
place of every empty right side. -/
theorem ofRules_markEmpty {rules : List Rule} (h : ofRules rules = .ok g)
    (heps : epsilonName ∉ Rules.leftSides rules) :
    ofRules (Rules.markEmpty rules) = .ok g.markEmpty := by
  obtain ⟨hne, hn, ht⟩ := ofRules_eq_ok h
  have hnames : epsilonName ∉ Rules.leftSides rules ++ Rules.terminalNames rules := by
    refine fun hmem => (List.mem_append.mp hmem).elim heps fun hterm => ?_
    exact (Rules.mem_terminalNames.mp hterm).2.2 rfl
  have hempty : (Rules.markEmpty rules).isEmpty = false := by
    simpa [Rules.markEmpty] using hne
  rw [ofRules, hempty, Rules.leftSides_markEmpty, Rules.terminalNames_markEmpty, markEmpty, hn, ht]
  simp only [Bool.false_eq_true, if_false, List.map_map, Function.comp_def, NonTerminal.markEmpty,
    Rules.alternativesFor_markEmpty, map_number_markAlternative hnames]

end Grammar

end Lookahead
