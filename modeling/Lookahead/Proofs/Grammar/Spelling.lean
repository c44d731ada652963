import Lookahead.Proofs.Grammar.WellFormed
import Lookahead.Report.Productions

/-!
# Grammars spelled out

The names on the right sides of rules are not kept : a grammar has numbers in their place.
Nothing is lost by that. A name that occurs in the rules leads to a number that leads back
to the name (`name_number`), so the production report of a grammar lists, for each left side,
the very alternatives that the rules gave (`rules_productionReport`).

A grammar depends on its rules only through the order of the left sides and through the
alternatives of each (`ofRules_congr`). So it can be made from one rule per left side, and
from its own production report.

* `ofRules_grouped` : rules with the same left side can be put together.
* `ofRules_rules_productionReport` : a grammar is made again from its production report.
-/

namespace Lookahead

open Grammar (epsilon start)

/-- The rows of a report, read as rules. -/
def ProductionReport.rules (report : ProductionReport) : List Rule :=
  report.rows.map fun row => ⟨row.left, row.rights⟩

namespace Rules

variable {rules rules' : List Rule} {name left : String}

/-- One rule per left side, with all its alternatives. -/
def grouped (rules : List Rule) : List Rule :=
  (leftSides rules).map fun left => ⟨left, alternativesFor rules left⟩

/-! ## What a grammar takes from its rules -/

theorem rightNames_congr (hleft : leftSides rules = leftSides rules')
    (halt : ∀ left ∈ leftSides rules, alternativesFor rules left = alternativesFor rules' left) :
    rightNames rules = rightNames rules' := by
  rw [rightNames, rightNames, ← hleft]
  exact List.flatMap_congr fun left h => by rw [halt left h]

theorem terminalNames_congr (hleft : leftSides rules = leftSides rules')
    (halt : ∀ left ∈ leftSides rules, alternativesFor rules left = alternativesFor rules' left) :
    terminalNames rules = terminalNames rules' := by
  rw [terminalNames, terminalNames, rightNames_congr hleft halt, hleft]

/-! ## One rule per left side -/

theorem leftSides_grouped (rules : List Rule) : leftSides (grouped rules) = leftSides rules := by
  have hnodup : (leftSides rules).Nodup := nodup_eraseDups _
  simpa [leftSides, grouped, Function.comp_def] using eraseDups_of_nodup hnodup

theorem alternativesFor_grouped (h : left ∈ leftSides rules) :
    alternativesFor (grouped rules) left = alternativesFor rules left := by
  have hone : (leftSides rules).filter (· = left) = [left] := by
    have hnodup : (leftSides rules).Nodup := nodup_eraseDups _
    rw [List.filter_eq, List.count_eq_one_of_mem hnodup h]
    rfl
  have hfilter : (grouped rules).filter (·.left = left) = [⟨left, alternativesFor rules left⟩] := by
    rw [grouped, List.filter_map]
    show List.map _ ((leftSides rules).filter (· = left)) = _
    rw [hone]
    rfl
  rw [alternativesFor, hfilter]
  simp

/-! ## Names behind numbers -/

/-- A name on the right is a symbol of the grammar, or it is that of the empty string. -/
theorem mem_names_or_eq_of_mem_rightNames (h : name ∈ rightNames rules) :
    name ∈ leftSides rules ++ terminalNames rules ∨ name = epsilonName := by
  by_cases heps : name = epsilonName
  · exact Or.inr heps
  · refine Or.inl (List.mem_append.mpr ?_)
    by_cases hleft : name ∈ leftSides rules
    · exact Or.inl hleft
    · exact Or.inr (mem_terminalNames.mpr ⟨h, hleft, heps⟩)

theorem mem_rightNames_of_mem_alternativesFor {alternative : List String}
    (hleft : left ∈ leftSides rules) (halt : alternative ∈ alternativesFor rules left)
    (h : name ∈ alternative) : name ∈ rightNames rules :=
  List.mem_flatMap.mpr ⟨left, hleft, List.mem_flatten.mpr ⟨alternative, halt, h⟩⟩

end Rules

/-- A run that fails at no item. -/
theorem mapM_eq_some_map {α β : Type} {f : α → Option β} {v : α → β} {xs : List α}
    (h : ∀ x ∈ xs, f x = some (v x)) : xs.mapM f = some (xs.map v) := by
  induction xs with
  | nil => rfl
  | cons x xs ih =>
    rw [List.mapM_cons, h x List.mem_cons_self, ih fun y hy => h y (List.mem_cons_of_mem x hy)]
    rfl

namespace Grammar

open Rules

variable {g : Grammar} {rules rules' : List Rule} {name : String}

/-- The grammar of rules is determined by the left sides and their alternatives. -/
theorem ofRules_congr (hleft : leftSides rules = leftSides rules')
    (halt : ∀ left ∈ leftSides rules, alternativesFor rules left = alternativesFor rules' left) :
    ofRules rules = ofRules rules' := by
  have hnil : rules.isEmpty = rules'.isEmpty := by
    rw [Bool.eq_iff_iff, List.isEmpty_iff, List.isEmpty_iff, ← leftSides_eq_nil_iff,
      ← leftSides_eq_nil_iff, hleft]
  have hmap (names : List String) : ((leftSides rules).map fun left =>
      NonTerminal.mk left ((alternativesFor rules left).map (·.map (number names)))) =
      (leftSides rules').map fun left =>
        ⟨left, (alternativesFor rules' left).map (·.map (number names))⟩ := by
    rw [← hleft]
    exact List.map_congr_left fun left h => by rw [halt left h]
  rw [ofRules, ofRules, hnil, hleft, terminalNames_congr hleft halt]
  simp only [← hleft, hmap]

theorem ofRules_grouped (rules : List Rule) : ofRules (grouped rules) = ofRules rules :=
  ofRules_congr (leftSides_grouped rules) fun _ h =>
    alternativesFor_grouped (leftSides_grouped rules ▸ h)

/-- A name that occurs in the rules is the name of its number. -/
theorem name_number (h : name ∈ g.names ∨ name = epsilonName) :
    g.name (number g.names name) = name := by
  cases hidx : g.names.idxOf? name with
  | none =>
    have hnot : name ∉ g.names := by simpa using hidx
    rw [number, hidx, h.resolve_left hnot]
    rfl
  | some k =>
    obtain ⟨hk, hname, -⟩ := List.idxOf?_eq_some_iff.mp hidx
    rw [number, hidx]
    show g.name (start + k) = name
    rw [Grammar.name, name?_eq_getElem? (Nat.le_add_right _ _), Nat.add_sub_cancel_left,
      List.getElem?_eq_getElem hk, hname]
    rfl

theorem name?_eq_some {i : Nat} (h : i < g.symbolCount) : g.name? i = some (g.name i) := by
  have hsymbol : g.symbol? i = some g.symbols[i] := List.getElem?_eq_getElem h
  rw [Grammar.name, Grammar.name?, hsymbol]
  rfl

/-- A string of numbers in use can be spelled. -/
theorem spell?_eq_some {string : List Nat} (h : ∀ i ∈ string, i < g.symbolCount) :
    g.spell? string = some (g.spell string) :=
  mapM_eq_some_map fun i hi => name?_eq_some (h i hi)

theorem spell_map_number {names : List String}
    (h : ∀ name ∈ names, name ∈ g.names ∨ name = epsilonName) :
    g.spell (names.map (number g.names)) = names := by
  have hid : names.map (g.name ∘ number g.names) = names.map id :=
    List.map_congr_left fun name hname => name_number (h name hname)
  rw [spell, List.map_map, hid, List.map_id]

/-- The production report lists the alternatives that the rules gave. -/
theorem rules_productionReport (h : ofRules rules = .ok g) :
    g.productionReport.rules = grouped rules := by
  obtain ⟨-, hn, -⟩ := ofRules_eq_ok h
  have hspell : ∀ left ∈ leftSides rules, ((alternativesFor rules left).map
      (·.map (number g.names))).map g.spell = alternativesFor rules left := by
    intro left hleft
    have hid : (alternativesFor rules left).map (g.spell ∘ (·.map (number g.names))) =
        (alternativesFor rules left).map id := by
      refine List.map_congr_left fun alternative halt => spell_map_number fun name hname => ?_
      rw [names_of_ofRules h]
      exact mem_names_or_eq_of_mem_rightNames
        (mem_rightNames_of_mem_alternativesFor hleft halt hname)
    rw [List.map_map, hid, List.map_id]
  rw [ProductionReport.rules, productionReport, hn, ← names_of_ofRules h, grouped]
  simp only [List.map_map]
  exact List.map_congr_left fun left hleft => congrArg (Rule.mk left) (hspell left hleft)

/-- The rules that the production report lists make the grammar again. -/
theorem ofRules_rules_productionReport (h : ofRules rules = .ok g) :
    ofRules g.productionReport.rules = .ok g := by
  rw [rules_productionReport h, ofRules_grouped, h]

end Grammar

end Lookahead
