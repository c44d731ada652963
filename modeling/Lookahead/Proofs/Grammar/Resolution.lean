import Lookahead.Proofs.Grammar.Extension

/-!
# What becomes of the rules

Rules for one left side may stand apart, and a name may be used before the rule that defines it.
The left sides become the non-terminals in the order of their first rules, each with the
alternatives of all its rules. Every place of an alternative holds the number that its name has in
the finished table (`map_index?_alternative`), and the kind of that symbol depends on the left
sides alone (`nonTerminal_number_iff`, `terminal_number_iff`). So what a builder makes of the rules
it makes of one rule per left side as well (`RuleBuilder.build_grouped`).

`build_resolves` : all this (`Grammar.Resolves`), for the table of symbols and for the grammar.
-/

namespace Lookahead

open Grammar (start epsilon endMark)
open Rules (number leftSides alternativesFor grouped)

/-! ## One rule per left side -/

namespace RuleBuilder

variable {b b' : RuleBuilder} {rules rules' : List Rule}

/-- The table is made from the left sides and their alternatives. -/
theorem build_congr (hlefts : b.lefts = b'.lefts) (halt : b.alternatives = b'.alternatives) :
    b.build = b'.build := by
  rw [build, build, hlefts, halt]

theorem build_grouped (rules : List Rule) :
    (ofRules (grouped rules)).build = (ofRules rules).build := by
  have hgrouped := collected_ofRules (grouped rules)
  have hrules := collected_ofRules rules
  refine build_congr ?_ ?_
  · rw [hgrouped.lefts, hrules.lefts, Rules.leftSides_grouped]
  · rw [hgrouped.alternatives, hrules.alternatives, Rules.leftSides_grouped]
    exact List.map_congr_left fun left hleft => Rules.alternativesFor_grouped hleft

end RuleBuilder

namespace Grammar

variable {g : Grammar} {rules : List Rule} {t : SymbolTable} {i j : Nat} {name left : String}
  {alternative : List String} {nt : NonTerminal}

/-! ## Names in alternatives -/

theorem mem_rightNames_of_mem {r : Rule} (hr : r ∈ rules) (halt : alternative ∈ r.alternatives)
    (hname : name ∈ alternative) : name ∈ Rules.rightNames rules :=
  Rules.mem_rightNames_of_mem_alternativesFor (Rules.mem_leftSides.mpr ⟨r, hr, rfl⟩)
    (Rules.mem_alternativesFor.mpr ⟨r, hr, rfl, halt⟩) hname

theorem mem_names_or_eq (h : ofRules rules = .ok g) (hname : name ∈ Rules.rightNames rules) :
    name ∈ g.names ∨ name = epsilonName :=
  names_of_ofRules h ▸ Rules.mem_names_or_eq_of_mem_rightNames hname

/-- The name is that of a non-terminal exactly if it is a left side. -/
theorem nonTerminal_number_iff (h : ofRules rules = .ok g) (hname : name ∈ Rules.rightNames rules) :
    (∃ nt, g.symbol? (number g.names name) = some (.nonTerminal nt) ∧ nt.name = name) ↔
      name ∈ leftSides rules := by
  constructor
  · rintro ⟨nt, hsymbol, rfl⟩
    have hnt : nt ∈ g.nonTerminals := by
      have := List.mem_of_getElem? hsymbol
      simpa [symbols] using this
    rw [(ofRules_eq_ok h).2.1] at hnt
    obtain ⟨left, hleft, rfl⟩ := List.mem_map.mp hnt
    exact hleft
  · intro hleft
    obtain ⟨nt, hsymbol, -⟩ := symbol?_of_isNonTerminal (isNonTerminal_number h hleft)
    refine ⟨nt, hsymbol, ?_⟩
    have := name_of_symbol? hsymbol
    rw [name_number (mem_names_or_eq h hname)] at this
    exact this.symm

theorem number_epsilonName (h : ofRules rules = .ok g) (hleft : epsilonName ∉ leftSides rules) :
    number g.names epsilonName = epsilon :=
  number_of_not_mem <| by simp [names_of_ofRules h, hleft, Rules.mem_terminalNames]

/-- A name that is no left side, nor that of the empty string, is the name of one terminal. -/
theorem terminal_number_iff (h : ofRules rules = .ok g) (hname : name ∈ Rules.rightNames rules)
    (hleft : name ∉ leftSides rules) (heps : name ≠ epsilonName) :
    g.symbol? j = some (.terminal name) ↔ j = number g.names name := by
  constructor
  · intro hsymbol
    have hlt : j < g.symbolCount := (List.getElem?_eq_some_iff.mp hsymbol).1
    have hle : start ≤ j := by
      match j with
      | 0 => simp [symbol?, symbols] at hsymbol
      | 1 => simp [symbol?, symbols] at hsymbol
      | j + 2 => exact Nat.le_add_left 2 j
    have hj := number_name h hle hlt
    rw [name_of_symbol? hsymbol] at hj
    exact hj.symm
  · rintro rfl
    obtain ⟨name', hsymbol⟩ :=
      symbol?_of_isTerminal ((isTerminal_number_iff h hname).mpr ⟨hleft, heps⟩)
    have := name_of_symbol? hsymbol
    rw [name_number (mem_names_or_eq h hname)] at this
    rw [hsymbol, this]
    rfl

/-! ## Alternatives -/

theorem spell?_alternative (h : ofRules rules = .ok g) (hleft : left ∈ leftSides rules)
    (halt : alternative ∈ alternativesFor rules left) :
    g.spell? (alternative.map (number g.names)) = some alternative := by
  have hname (name : String) (hmem : name ∈ alternative) : name ∈ g.names ∨ name = epsilonName :=
    mem_names_or_eq h (Rules.mem_rightNames_of_mem_alternativesFor hleft halt hmem)
  rw [spell?_eq_some, spell_map_number hname]
  intro i hi
  obtain ⟨name, -, rfl⟩ := List.mem_map.mp hi
  rw [symbolCount_eq_length_names]
  exact Rules.number_lt _ _

/-- Each place of an alternative holds what the finished table has for the name there. -/
theorem map_index?_alternative (h : ofRules rules = .ok g) (ht : t.Holds g)
    (hleft : left ∈ leftSides rules) (halt : alternative ∈ alternativesFor rules left) :
    (alternative.map (number g.names)).map some = alternative.map t.index? := by
  rw [List.map_map]
  refine List.map_congr_left fun name hname => ?_
  rw [ht.index?, indexOf?_eq_number (mem_names_or_eq h
    (Rules.mem_rightNames_of_mem_alternativesFor hleft halt hname))]
  rfl

/-! ## The whole builder -/

/-- What the grammar and its table of symbols make of the names in the rules. -/
structure Resolves (g : Grammar) (t : SymbolTable) (rules : List Rule) : Prop where
  /-- The left sides become non-terminals, in the order of their first rules. -/
  nonTerminals : g.nonTerminals.map (·.name) = (rules.map (·.left)).eraseDups
  /-- By name, the productions are the alternatives of all rules for them, in order. -/
  spell? : ∀ nt ∈ g.nonTerminals, nt.productions.mapM g.spell? =
    some ((rules.filter (·.left = nt.name)).flatMap (·.alternatives))
  /-- By number, they hold at each place what the table has for the name there. -/
  index? : ∀ nt ∈ g.nonTerminals, nt.productions.map (·.map some) =
    ((rules.filter (·.left = nt.name)).flatMap (·.alternatives)).map (·.map t.index?)
  /-- A name in an alternative is that of a non-terminal exactly if some rule defines it. If none
  does, it is the marker for the empty string, or the one terminal of that name. -/
  symbol? : ∀ r ∈ rules, ∀ alternative ∈ r.alternatives, ∀ name ∈ alternative,
    ∃ i, t.index? name = some i ∧
      ((∃ nt, g.symbol? i = some (.nonTerminal nt) ∧ nt.name = name) ↔
        ∃ r' ∈ rules, r'.left = name) ∧
      ((¬∃ r' ∈ rules, r'.left = name) → name = epsilonName → i = epsilon) ∧
      ((¬∃ r' ∈ rules, r'.left = name) → name ≠ epsilonName →
        ∀ j, g.symbol? j = some (.terminal name) ↔ j = i)

theorem resolves_of_ofRules (h : ofRules rules = .ok g) (ht : t.Holds g) : g.Resolves t rules := by
  have hn := (ofRules_eq_ok h).2.1
  rw [← names_of_ofRules h] at hn
  refine ⟨?_, fun nt hnt => ?_, fun nt hnt => ?_, fun r hr alternative halt name hname => ?_⟩
  · rw [hn, List.map_map]
    exact List.map_id _
  · rw [hn] at hnt
    obtain ⟨left, hleft, rfl⟩ := List.mem_map.mp hnt
    show List.mapM _ (List.map _ _) = some (alternativesFor rules left)
    rw [List.mapM_map]
    refine (mapM_eq_some_map (v := id) fun alternative halt => ?_).trans
      (congrArg some (List.map_id _))
    exact spell?_alternative h hleft halt
  · rw [hn] at hnt
    obtain ⟨left, hleft, rfl⟩ := List.mem_map.mp hnt
    show List.map _ (List.map _ _) = (alternativesFor rules left).map _
    rw [List.map_map]
    exact List.map_congr_left fun alternative halt => map_index?_alternative h ht hleft halt
  · have hright := mem_rightNames_of_mem hr halt hname
    rw [← Rules.mem_leftSides]
    refine ⟨number g.names name, ?_, nonTerminal_number_iff h hright, ?_,
      fun hleft heps j => terminal_number_iff h hright hleft heps⟩
    · rw [ht.index?, indexOf?_eq_number (mem_names_or_eq h hright)]
    · rintro hleft rfl
      exact number_epsilonName h hleft

/-- Any rules make a table of symbols, which is that of their grammar, and in which no alternative
is lost and every name is resolved by what all rules define. The same rules, put together by their
left sides, make the same table and the same grammar. -/
theorem build_resolves (hne : rules ≠ []) : ∃ g t, ofRules rules = .ok g ∧
    (RuleBuilder.ofRules rules).build = .ok (t, start) ∧ t.Holds g ∧ g.Resolves t rules ∧
    (RuleBuilder.ofRules (grouped rules)).build = .ok (t, start) ∧
    ofRules (grouped rules) = .ok g := by
  obtain ⟨g, h⟩ : ∃ g, ofRules rules = .ok g := by
    cases h : ofRules rules with
    | error e => exact absurd (ofRules_eq_error_iff.mp h).1 hne
    | ok g => exact ⟨g, rfl⟩
  obtain ⟨t, hbuild, ht⟩ := RuleBuilder.build_ofRules h
  exact ⟨g, t, h, hbuild, ht, resolves_of_ofRules h ht,
    (RuleBuilder.build_grouped rules).trans hbuild, (ofRules_grouped rules).trans h⟩

/-- Rules for `S` around those for `A`, which is used before it is defined. -/
def scatteredRules : List Rule :=
  [⟨"S", [["A", "x"], []]⟩, ⟨"A", [["x", "S"]]⟩, ⟨"S", [["ε", "B"], ["A", "x"]]⟩, ⟨"A", [[]]⟩]

/-- The grammar of `scatteredRules`. -/
def scatteredGrammar : Grammar :=
  ⟨[⟨"S", [[3, 4], [], [0, 5], [3, 4]]⟩, ⟨"A", [[4, 2], []]⟩], ["x", "B"]⟩

/-- The alternatives for `S` keep their order, and `A` is found before its rule is read. -/
theorem build_resolves_scattered : scatteredRules ≠ [] ∧
    ofRules scatteredRules = .ok scatteredGrammar ∧
    [[3, 4], [], [0, 5], [3, 4]].mapM scatteredGrammar.spell? =
      some [["A", "x"], [], ["ε", "B"], ["A", "x"]] ∧
    ∃ t, (RuleBuilder.ofRules scatteredRules).build = .ok (t, start) ∧
      (∃ i, t.index? "A" = some i ∧
        ∃ nt, scatteredGrammar.symbol? i = some (.nonTerminal nt) ∧ nt.name = "A") ∧
      (∃ i, t.index? "B" = some i ∧ scatteredGrammar.symbol? i = some (.terminal "B")) ∧
      (RuleBuilder.ofRules [⟨"S", [["A", "x"], [], ["ε", "B"], ["A", "x"]]⟩,
        ⟨"A", [["x", "S"], []]⟩]).build = .ok (t, start) := by
  have hne : scatteredRules ≠ [] := by decide
  have hok : ofRules scatteredRules = .ok scatteredGrammar := by decide +kernel
  have hgrouped : grouped scatteredRules = [⟨"S", [["A", "x"], [], ["ε", "B"], ["A", "x"]]⟩,
      ⟨"A", [["x", "S"], []]⟩] := by decide +kernel
  obtain ⟨g, t, h, hbuild, -, hresolves, hsame, -⟩ := build_resolves hne
  obtain rfl : scatteredGrammar = g := Except.ok.inj (hok.symm.trans h)
  obtain ⟨i, hi, hnt, -⟩ := hresolves.symbol? ⟨"S", [["A", "x"], []]⟩ (by decide)
    ["A", "x"] (by decide) "A" (by decide)
  obtain ⟨j, hj, -, -, hterminal⟩ := hresolves.symbol? ⟨"S", [["ε", "B"], ["A", "x"]]⟩ (by decide)
    ["ε", "B"] (by decide) "B" (by decide)
  rw [hgrouped] at hsame
  refine ⟨hne, hok, ?_, t, hbuild, ⟨i, hi, hnt.mpr (by decide)⟩,
    ⟨j, hj, (hterminal (by decide) (by decide) j).mpr rfl⟩, hsame⟩
  exact hresolves.spell? ⟨"S", [[3, 4], [], [0, 5], [3, 4]]⟩ (by decide)

end Grammar

end Lookahead
