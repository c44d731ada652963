import Lookahead.Proofs.Grammar.Interning
import Lookahead.Proofs.Grammar.Spelling

/-!
# How the symbols of a grammar are numbered

The grammar of a list of rules numbers the markers first, then the left sides and then the
terminals (`Grammar.Representation`). Numbers and names lead to each other, but for the end mark,
which no name leads to, and for the empty string, whose name a left side can take over.

The right sides hold the numbers of the names on the right of the rules, in order
(`right_productions_of_ofRules`). So the terminals are numbered as they first occur in the
productions (`terminalIndexes_eq`).

`ofRules_representation` : all this, for the grammar and for the table that interning makes of the
same rules.
-/

namespace Lookahead

open Grammar (start epsilon endMark)
open Rules (number leftSides alternativesFor rightNames terminalNames)

namespace Grammar

variable {g : Grammar} {rules : List Rule} {i j : Nat} {name : String}

/-! ## Symbols by number -/

theorem symbol?_of_isNonTerminal (h : g.IsNonTerminal i) :
    ∃ nt, g.symbol? i = some (.nonTerminal nt) ∧ g.nonTerminal? i = some nt := by
  obtain ⟨k, rfl⟩ := Nat.exists_eq_add_of_le h.1
  have hk : k < g.nonTerminals.length := Nat.lt_of_add_lt_add_left h.2
  refine ⟨g.nonTerminals[k], ?_, ?_⟩
  · rw [symbol?_start_add, List.getElem?_append_left (by simpa using hk)]
    simp [hk]
  · simp [nonTerminal?, hk]

theorem symbol?_of_isTerminal (h : g.IsTerminal i) :
    ∃ name, g.symbol? i = some (.terminal name) := by
  have hi : i < 2 + g.nonTerminals.length + g.terminals.length := g.symbolCount_eq ▸ h.2
  obtain ⟨k, rfl⟩ := Nat.exists_eq_add_of_le h.1
  have hk : k < g.terminals.length := Nat.lt_of_add_lt_add_left hi
  refine ⟨g.terminals[k], ?_⟩
  rw [Nat.add_assoc, symbol?_start_add, List.getElem?_append_right (by simp)]
  simp [hk]

theorem mem_terminalIndexes : i ∈ g.terminalIndexes ↔ g.IsTerminal i := by
  rw [terminalIndexes, IsTerminal, symbolCount_eq, List.mem_range'_1]

/-- The name of a symbol that is no marker is one of the names. -/
theorem exists_name_eq_of_mem_names (h : name ∈ g.names) :
    ∃ i, start ≤ i ∧ i < g.symbolCount ∧ g.name i = name := by
  obtain ⟨k, hk, rfl⟩ := List.mem_iff_getElem.mp h
  refine ⟨start + k, Nat.le_add_right _ _, ?_, ?_⟩
  · rw [symbolCount_eq_length_names]
    omega
  · rw [Grammar.name, name?_eq_getElem? (Nat.le_add_right _ _), Nat.add_sub_cancel_left,
      List.getElem?_eq_getElem hk]
    rfl

theorem indexOf?_of_mem_names (h : name ∈ g.names) :
    g.indexOf? name = some (number g.names name) := by
  obtain ⟨k, hk⟩ := exists_idxOf?_eq_some h
  rw [indexOf?, number, hk]

theorem indexOf?_epsilonName (h : epsilonName ∉ g.names) :
    g.indexOf? epsilonName = some epsilon := by
  rw [indexOf?, List.idxOf?_eq_none_iff.mpr h]
  rfl

theorem indexOf?_of_not_mem (h : name ∉ g.names) (heps : name ≠ epsilonName) :
    g.indexOf? name = none := by
  rw [indexOf?, List.idxOf?_eq_none_iff.mpr h]
  exact if_neg heps

/-- Looking up a name that occurs in the rules gives its number. -/
theorem indexOf?_eq_number (h : name ∈ g.names ∨ name = epsilonName) :
    g.indexOf? name = some (number g.names name) := by
  by_cases hmem : name ∈ g.names
  · exact indexOf?_of_mem_names hmem
  · obtain rfl := h.resolve_left hmem
    rw [indexOf?_epsilonName hmem, number_of_not_mem hmem]

/-- What a name leads to has this name. -/
theorem name_of_indexOf? (h : g.indexOf? name = some i) : g.name i = name := by
  have hname : name ∈ g.names ∨ name = epsilonName := by
    by_contra hnot
    obtain ⟨hmem, heps⟩ := not_or.mp hnot
    simp [indexOf?_of_not_mem hmem heps] at h
  rw [indexOf?_eq_number hname] at h
  obtain rfl := Option.some.inj h
  exact name_number hname

/-! ## Productions by name -/

theorem map_nonTerminal?_nonTerminalIndexes (g : Grammar) :
    g.nonTerminalIndexes.map g.nonTerminal? = g.nonTerminals.map some := by
  refine List.ext_getElem (by simp [nonTerminalIndexes]) fun k hk _ => ?_
  have hk' : k < g.nonTerminals.length := by simpa [nonTerminalIndexes] using hk
  simp [nonTerminalIndexes, nonTerminal?, hk']

/-- The right sides, one after the other, are those of the non-terminals. -/
theorem flatMap_right_productions (g : Grammar) : g.productions.flatMap (·.right) =
    g.nonTerminals.flatMap (·.productions.flatten) := by
  have hrights (i : Nat) : ((g.alternatives i).map (Production.mk i)).flatMap (·.right) =
      (((g.nonTerminal? i).map (·.productions)).getD []).flatten := by
    rw [List.flatMap_map, List.flatMap_id']
    rfl
  rw [productions, List.flatMap_assoc]
  simp only [hrights]
  rw [← List.flatMap_map (f := g.nonTerminal?)
    (g := fun nt? => ((nt?.map (·.productions)).getD []).flatten),
    map_nonTerminal?_nonTerminalIndexes, List.flatMap_map]
  rfl

/-- The right sides hold the numbers of the names on the right of the rules. -/
theorem right_productions_of_ofRules (h : ofRules rules = .ok g) :
    g.productions.flatMap (·.right) = (rightNames rules).map (number g.names) := by
  obtain ⟨-, hn, -⟩ := ofRules_eq_ok h
  rw [flatMap_right_productions, names_of_ofRules h, hn, List.flatMap_map, rightNames,
    List.map_flatMap]
  exact List.flatMap_congr fun left _ => (List.map_flatten).symm

theorem exists_name_of_mem_right (h : ofRules rules = .ok g) {p : Production}
    (hp : p ∈ g.productions) (hi : i ∈ p.right) :
    ∃ name, (name ∈ g.names ∨ name = epsilonName) ∧ i = number g.names name := by
  have hmem : i ∈ g.productions.flatMap (·.right) := List.mem_flatMap.mpr ⟨p, hp, hi⟩
  rw [right_productions_of_ofRules h] at hmem
  obtain ⟨name, hname, rfl⟩ := List.mem_map.mp hmem
  exact ⟨name, names_of_ofRules h ▸ Rules.mem_names_or_eq_of_mem_rightNames hname, rfl⟩

theorem length_nonTerminals_of_ofRules (h : ofRules rules = .ok g) :
    g.nonTerminals.length = (leftSides rules).length := by
  rw [(ofRules_eq_ok h).2.1, List.length_map]

/-- A name is that of a terminal if no rule defines it, and if it is not that of the empty
string. -/
theorem isTerminal_number_iff (h : ofRules rules = .ok g) (hname : name ∈ rightNames rules) :
    g.IsTerminal (number g.names name) ↔ name ∉ leftSides rules ∧ name ≠ epsilonName := by
  have hnames := names_of_ofRules h
  rw [IsTerminal, symbolCount_eq_length_names, length_nonTerminals_of_ofRules h, hnames]
  constructor
  · rintro ⟨hle, -⟩
    by_contra hknown
    rw [not_and_or, not_not, not_not] at hknown
    have hlt := Rules.number_lt (leftSides rules) name
    by_cases hleft : name ∈ leftSides rules
    · rw [number_append_of_mem hleft] at hle
      omega
    · obtain rfl := hknown.resolve_left hleft
      rw [number_of_not_mem (by simp [hleft, Rules.mem_terminalNames])] at hle
      exact absurd hle (by simp)
  · rintro ⟨hleft, heps⟩
    have hterminal := Rules.mem_terminalNames.mpr ⟨hname, hleft, heps⟩
    obtain ⟨k, hk⟩ := exists_idxOf?_eq_some hterminal
    refine ⟨?_, Rules.number_lt _ _⟩
    rw [number, idxOf?_append, List.idxOf?_eq_none_iff.mpr hleft, hk]
    simp

/-- The terminals are numbered behind the left sides. -/
theorem map_number_terminalNames (h : ofRules rules = .ok g) :
    (terminalNames rules).map (number g.names) = g.terminalIndexes := by
  have hall := Rules.map_number_eq_range' (Rules.nodup_leftSides_append_terminalNames rules)
  have hdrop := congrArg (List.drop (leftSides rules).length) hall
  rw [List.drop_range', List.map_append, List.drop_left' (by simp), ← names_of_ofRules h] at hdrop
  rw [hdrop, terminalIndexes, length_nonTerminals_of_ofRules h, names_of_ofRules h,
    List.length_append, Nat.add_sub_cancel_left, Nat.mul_one, (ofRules_eq_ok h).2.2]

/-- The terminals are numbered in the order in which the productions show them. -/
theorem terminalIndexes_eq (h : ofRules rules = .ok g) : g.terminalIndexes =
    ((g.productions.flatMap (·.right)).filter (g.IsTerminal ·)).eraseDups := by
  have hfilter : (rightNames rules).filter ((fun i => decide (g.IsTerminal i)) ∘ number g.names) =
      (rightNames rules).filter fun name => name ∉ leftSides rules ∧ name ≠ epsilonName :=
    List.filter_congr fun name hname => decide_eq_decide.mpr (isTerminal_number_iff h hname)
  have hmem : ∀ name ∈ (rightNames rules).filter
      (fun name => decide (name ∉ leftSides rules ∧ name ≠ epsilonName)), name ∈ g.names := by
    intro name hname
    rw [names_of_ofRules h]
    exact List.mem_append_right _ (List.mem_eraseDups.mpr hname)
  rw [right_productions_of_ofRules h, List.filter_map, hfilter, eraseDups_map_of_injOn
    fun name hname other hother heq => number_injOn (hmem name hname) (hmem other hother) heq]
  exact (map_number_terminalNames h).symm

/-! ## The whole table -/

/-- How the grammar of the rules numbers its symbols. -/
structure Representation (g : Grammar) (rules : List Rule) : Prop where
  symbol?_epsilon : g.symbol? epsilon = some .epsilon
  symbol?_endMark : g.symbol? endMark = some .endMark
  symbol?_nonTerminal : ∀ i, g.IsNonTerminal i →
    ∃ nt, g.symbol? i = some (.nonTerminal nt) ∧ g.nonTerminal? i = some nt
  symbol?_terminal : ∀ i, g.IsTerminal i → ∃ name, g.symbol? i = some (.terminal name)
  symbol?_eq_none : ∀ i, g.symbolCount ≤ i → g.symbol? i = none
  isNonTerminal_start : g.IsNonTerminal start
  name_start : rules.head?.map (·.left) = some (g.name start)
  name_injective : ∀ i j, start ≤ i → i < g.symbolCount → start ≤ j → j < g.symbolCount →
    g.name i = g.name j → i = j
  indexOf?_name : ∀ i, start ≤ i → i < g.symbolCount → g.indexOf? (g.name i) = some i
  /-- The name of the empty string leads to the marker, unless a rule defines it. -/
  indexOf?_epsilonName : epsilonName ∉ leftSides rules → g.indexOf? epsilonName = some epsilon
  indexOf?_defined : epsilonName ∈ leftSides rules →
    ∃ i, g.IsNonTerminal i ∧ g.name i = epsilonName ∧ g.indexOf? epsilonName = some i
  indexOf?_eq_none : ∀ name, name ≠ epsilonName →
    (∀ i, start ≤ i → i < g.symbolCount → g.name i ≠ name) → g.indexOf? name = none
  /-- Numbers on the right are in use, and their names lead back to them. -/
  right : ∀ p ∈ g.productions, ∀ i ∈ p.right,
    i < g.symbolCount ∧ i ≠ endMark ∧ g.indexOf? (g.name i) = some i
  /-- The terminals are numbered in the order of their first occurrences. -/
  terminalIndexes : g.terminalIndexes =
    ((g.productions.flatMap (·.right)).filter (g.IsTerminal ·)).eraseDups
  terminal_occurs : ∀ i, g.IsTerminal i → ∃ p ∈ g.productions, i ∈ p.right

theorem name_start_of_ofRules (h : ofRules rules = .ok g) :
    rules.head?.map (·.left) = some (g.name start) := by
  obtain ⟨r, rest, rfl⟩ := List.exists_cons_of_ne_nil (ofRules_eq_ok h).1
  rw [Grammar.name, name?_eq_getElem? (Nat.le_refl _), names_of_ofRules h, leftSides, List.map_cons,
    List.eraseDups_cons]
  rfl

/-- A left side is the name of a non-terminal, and leads to it. -/
theorem exists_isNonTerminal_of_mem_leftSides (h : ofRules rules = .ok g)
    (hleft : name ∈ leftSides rules) :
    ∃ i, g.IsNonTerminal i ∧ g.name i = name ∧ g.indexOf? name = some i := by
  have hmem : name ∈ g.names := names_of_ofRules h ▸ List.mem_append_left _ hleft
  refine ⟨number g.names name, ⟨?_, ?_⟩, name_number (Or.inl hmem), indexOf?_of_mem_names hmem⟩
  · obtain ⟨k, hk⟩ := exists_idxOf?_eq_some hmem
    rw [number, hk]
    exact Nat.le_add_right _ _
  · rw [names_of_ofRules h, number_append_of_mem hleft, length_nonTerminals_of_ofRules h]
    exact Rules.number_lt _ _

/-- The representation of the grammar of rules. -/
theorem representation_of_ofRules (h : ofRules rules = .ok g) : g.Representation rules where
  symbol?_epsilon := rfl
  symbol?_endMark := rfl
  symbol?_nonTerminal _ := symbol?_of_isNonTerminal
  symbol?_terminal _ := symbol?_of_isTerminal
  symbol?_eq_none _ := List.getElem?_eq_none
  isNonTerminal_start := (wellFormed_of_ofRules h).isNonTerminal_start
  name_start := name_start_of_ofRules h
  name_injective _ _ := (wellFormed_of_ofRules h).name_injective
  indexOf?_name _ := (wellFormed_of_ofRules h).indexOf?_name
  indexOf?_epsilonName heps := indexOf?_epsilonName <| by
    simp [names_of_ofRules h, heps, Rules.mem_terminalNames]
  indexOf?_defined := exists_isNonTerminal_of_mem_leftSides h
  indexOf?_eq_none name heps hname := indexOf?_of_not_mem (fun hmem => by
    obtain ⟨i, hi, hlt, heq⟩ := exists_name_eq_of_mem_names hmem
    exact hname i hi hlt heq) heps
  right p hp i hi := by
    have hwf := wellFormed_of_ofRules h
    obtain ⟨name, hname, rfl⟩ := exists_name_of_mem_right h hp hi
    refine ⟨hwf.lt_of_mem_right p hp _ hi, hwf.ne_endMark_of_mem_right p hp _ hi, ?_⟩
    rw [name_number hname, indexOf?_eq_number hname]
  terminalIndexes := terminalIndexes_eq h
  terminal_occurs i hi := by
    have hmem := mem_terminalIndexes.mpr hi
    rw [terminalIndexes_eq h, List.mem_eraseDups, List.mem_filter, List.mem_flatMap] at hmem
    exact hmem.1

theorem isCapitalized_iff : isCapitalized name = true ↔
    ∃ c rest, name.toList = c :: rest ∧ 'A' ≤ c ∧ c ≤ 'Z' := by
  rw [isCapitalized]
  cases name.toList with
  | nil => simp
  | cons c rest =>
    have hupper : c.isUpper = true ↔ 'A' ≤ c ∧ c ≤ 'Z' := decide_eq_true_iff
    simp [hupper]

/-- The grammar of rules is numbered as its readers expect, and interning the names of the same
rules one after the other makes the same table, in which every non-terminal holds its own number
and every terminal with a capital letter in front has left a warning. -/
theorem ofRules_representation (h : ofRules rules = .ok g) :
    g.Representation rules ∧ ∃ t, (RuleBuilder.ofRules rules).build = .ok (t, start) ∧
      t.entries = g.symbols.mapIdx Entry.ofSymbol ∧
      (∀ i index nt, t.entries[i]? = some (Entry.nonTerminal index nt) → index = i) ∧
      (∀ name, t.index? name = g.indexOf? name) ∧
      t.warnings = g.terminals.filter isCapitalized ∧
      ∀ name, isCapitalized name = true ↔
        ∃ c rest, name.toList = c :: rest ∧ 'A' ≤ c ∧ c ≤ 'Z' := by
  obtain ⟨t, hbuild, hentries, hindex, hwarnings⟩ := RuleBuilder.build_ofRules h
  refine ⟨representation_of_ofRules h, t, hbuild, hentries, fun i index nt hi => ?_, hindex,
    hwarnings, fun name => isCapitalized_iff⟩
  rw [hentries, List.getElem?_mapIdx, Option.map_eq_some_iff] at hi
  obtain ⟨symbol, -, heq⟩ := hi
  cases symbol with
  | nonTerminal nt' => exact (Entry.nonTerminal.inj heq).1.symm
  | epsilon | endMark | terminal name => simp [Entry.ofSymbol] at heq

/-- Rules with the empty name, the names of both markers and capital letters among the symbols,
and `ε` on a left side that comes late. -/
def shadowingRules : List Rule :=
  [⟨"", [["$", "ε", "Émile", "Q"], []]⟩, ⟨"$", []⟩, ⟨"ε", [["", "x", "ε"]]⟩,
    ⟨"", [["x", "Q", "Zz"]]⟩]

/-- The grammar of `shadowingRules`. -/
def shadowingGrammar : Grammar :=
  ⟨[⟨"", [[3, 4, 5, 6], [], [7, 6, 8]]⟩, ⟨"$", []⟩, ⟨"ε", [[2, 7, 4]]⟩], ["Émile", "Q", "x", "Zz"]⟩

/-- The name of the empty string leads to the left side, and two terminals leave a warning. -/
theorem ofRules_representation_shadowing : ofRules shadowingRules = .ok shadowingGrammar ∧
    shadowingGrammar.Representation shadowingRules ∧ shadowingGrammar.indexOf? "ε" = some 4 ∧
    shadowingGrammar.indexOf? "y" = none ∧
    ∃ t, (RuleBuilder.ofRules shadowingRules).build = .ok (t, start) ∧
      t.index? "$" = some 3 ∧ t.warnings = ["Q", "Zz"] := by
  have hok : ofRules shadowingRules = .ok shadowingGrammar := by decide +kernel
  obtain ⟨hrep, t, hbuild, -, -, hindex, hwarnings, -⟩ := ofRules_representation hok
  refine ⟨hok, hrep, by decide +kernel, by decide +kernel, t, hbuild, ?_, ?_⟩
  · rw [hindex]
    decide +kernel
  · rw [hwarnings]
    decide +kernel

end Grammar

end Lookahead
