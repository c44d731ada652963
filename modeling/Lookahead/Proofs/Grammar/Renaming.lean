import Lookahead.Proofs.Grammar.Representation
import Lookahead.Proofs.LeftCorner.Links
import Lookahead.Proofs.LeftCorner.SameCorners

/-!
# Other names for the same symbols

Names matter only as far as they are the same or not. Rules whose names are replaced by others,
distinct names by distinct ones and the name of the empty string by itself (`Rules.Renames`), make
the grammar with the names replaced (`ofRules_rename`). All else is numbers : the productions, the
sets and what the search for left recursion finds. The end mark has no name in the rules, so a
symbol may get its name, or lose it.

`sets_eq_of_renames` : rules and renamed rules, from the table of symbols to the report.
-/

namespace Lookahead

open Grammar (start epsilon endMark)

/-! ## Renaming -/

/-- The rule with other names. -/
def Rule.rename (f : String → String) (r : Rule) : Rule :=
  ⟨f r.left, r.alternatives.map (·.map f)⟩

/-- The symbol with another name. The markers keep theirs. -/
def Symbol.rename (f : String → String) : Symbol → Symbol
  | nonTerminal nt => nonTerminal ⟨f nt.name, nt.productions⟩
  | terminal name => terminal (f name)
  | other => other

/-- The entry with another name. -/
def Entry.rename (f : String → String) : Entry → Entry
  | nonTerminal index nt => nonTerminal index ⟨f nt.name, nt.productions⟩
  | terminal name => terminal (f name)
  | other => other

/-- The report with other names. -/
def LeftRecursion.rename (f : String → String) (r : LeftRecursion) : LeftRecursion :=
  ⟨f r.nonTerminal, r.chain.map fun (left, right) => (f left, right.map f)⟩

theorem LeftRecursion.kind_rename (f : String → String) (r : LeftRecursion) :
    (r.rename f).kind = r.kind := by
  simp [kind, rename]

theorem Entry.ofSymbol_rename (f : String → String) (i : Nat) (symbol : Symbol) :
    ofSymbol i (symbol.rename f) = (ofSymbol i symbol).rename f := by
  cases symbol <;> rfl

namespace Rules

variable {f : String → String} {rules : List Rule} {name other left : String}

/-- The rules with other names. -/
def rename (f : String → String) (rules : List Rule) : List Rule :=
  rules.map (Rule.rename f)

/-- The names that occur in the rules, and that of the empty string. -/
def occurring (rules : List Rule) : List String :=
  epsilonName :: rules.flatMap fun r => r.left :: r.alternatives.flatten

/-- The replacement keeps the names of the rules apart, and apart from the empty string. -/
structure Renames (f : String → String) (rules : List Rule) : Prop where
  epsilonName : f epsilonName = epsilonName
  injOn : ∀ name ∈ occurring rules, ∀ other ∈ occurring rules, f name = f other → name = other

theorem epsilonName_mem_occurring (rules : List Rule) : epsilonName ∈ occurring rules :=
  List.mem_cons_self

theorem left_mem_occurring {r : Rule} (hr : r ∈ rules) : r.left ∈ occurring rules :=
  List.mem_cons_of_mem _ (List.mem_flatMap.mpr ⟨r, hr, List.mem_cons_self⟩)

theorem mem_occurring_of_mem_leftSides (h : name ∈ leftSides rules) : name ∈ occurring rules := by
  obtain ⟨r, hr, rfl⟩ := mem_leftSides.mp h
  exact left_mem_occurring hr

theorem mem_occurring_of_mem_rightNames (h : name ∈ rightNames rules) :
    name ∈ occurring rules := by
  obtain ⟨left, -, hname⟩ := List.mem_flatMap.mp h
  obtain ⟨alternative, halt, hname⟩ := List.mem_flatten.mp hname
  obtain ⟨r, hr, -, halt⟩ := mem_alternativesFor.mp halt
  exact List.mem_cons_of_mem _ (List.mem_flatMap.mpr ⟨r, hr,
    List.mem_cons_of_mem _ (List.mem_flatten.mpr ⟨alternative, halt, hname⟩)⟩)

theorem mem_occurring_of_mem_names
    (h : name ∈ leftSides rules ++ terminalNames rules) : name ∈ occurring rules :=
  (List.mem_append.mp h).elim mem_occurring_of_mem_leftSides fun hterminal =>
    mem_occurring_of_mem_rightNames (mem_terminalNames.mp hterminal).1

/-! ## The lists that make a grammar -/

/-- A name is listed under its new name where it was listed. -/
theorem mem_map_iff_of_injOn {names : List String} (h : ∀ other ∈ names, f other = f name →
    other = name) : f name ∈ names.map f ↔ name ∈ names := by
  refine ⟨fun hmem => ?_, List.mem_map_of_mem⟩
  obtain ⟨other, hother, heq⟩ := List.mem_map.mp hmem
  exact h other hother heq ▸ hother

theorem idxOf?_map_of_injOn {names : List String} (h : ∀ other ∈ names, f other = f name →
    other = name) : (names.map f).idxOf? (f name) = names.idxOf? name := by
  induction names with
  | nil => rfl
  | cons other names ih =>
    have hhead : f other = f name ↔ other = name := ⟨h other List.mem_cons_self, congrArg f⟩
    rw [List.map_cons, List.idxOf?_cons, List.idxOf?_cons,
      ih fun other hother => h other (List.mem_cons_of_mem _ hother)]
    simp only [beq_iff_eq, hhead]

section Renames

variable (hf : Renames f rules)
include hf

theorem eq_epsilonName_iff (hname : name ∈ occurring rules) :
    f name = Lookahead.epsilonName ↔ name = Lookahead.epsilonName :=
  ⟨fun heq => hf.injOn name hname _ (epsilonName_mem_occurring rules)
    (heq.trans hf.epsilonName.symm), fun heq => heq ▸ hf.epsilonName⟩

theorem leftSides_rename : leftSides (rename f rules) = (leftSides rules).map f := by
  have hmap : (rename f rules).map (·.left) = (rules.map (·.left)).map f := by
    simp [rename, Rule.rename]
  rw [leftSides, hmap, eraseDups_map_of_injOn, leftSides]
  intro name hname other hother
  obtain ⟨r, hr, rfl⟩ := List.mem_map.mp hname
  obtain ⟨r', hr', rfl⟩ := List.mem_map.mp hother
  exact hf.injOn _ (left_mem_occurring hr) _ (left_mem_occurring hr')

theorem alternativesFor_rename (hleft : left ∈ leftSides rules) :
    alternativesFor (rename f rules) (f left) = (alternativesFor rules left).map (·.map f) := by
  have hfilter : (rename f rules).filter (·.left = f left) =
      (rules.filter (·.left = left)).map (Rule.rename f) := by
    rw [rename, List.filter_map]
    refine congrArg _ (List.filter_congr fun r hr => decide_eq_decide.mpr ⟨fun heq => ?_, ?_⟩)
    · exact hf.injOn _ (left_mem_occurring hr) _ (mem_occurring_of_mem_leftSides hleft) heq
    · rintro rfl
      rfl
  rw [alternativesFor, hfilter, alternativesFor, List.flatMap_map, List.map_flatMap]
  rfl

theorem rightNames_rename : rightNames (rename f rules) = (rightNames rules).map f := by
  rw [rightNames, leftSides_rename hf, List.flatMap_map, rightNames, List.map_flatMap]
  refine List.flatMap_congr fun left hleft => ?_
  rw [alternativesFor_rename hf hleft, List.map_flatten]

theorem terminalNames_rename : terminalNames (rename f rules) = (terminalNames rules).map f := by
  have hfilter : ((rightNames rules).map f).filter
      (fun name => name ∉ (leftSides rules).map f ∧ name ≠ Lookahead.epsilonName) =
      ((rightNames rules).filter
        fun name => name ∉ leftSides rules ∧ name ≠ Lookahead.epsilonName).map f := by
    rw [List.filter_map]
    refine congrArg _ (List.filter_congr fun name hname => decide_eq_decide.mpr ?_)
    have hoccurs := mem_occurring_of_mem_rightNames hname
    have hleft : f name ∈ (leftSides rules).map f ↔ name ∈ leftSides rules :=
      mem_map_iff_of_injOn fun other hother =>
        hf.injOn other (mem_occurring_of_mem_leftSides hother) name hoccurs
    rw [hleft, Ne, eq_epsilonName_iff hf hoccurs]
  rw [terminalNames, leftSides_rename hf, rightNames_rename hf, hfilter,
    eraseDups_map_of_injOn, terminalNames]
  intro name hname other hother
  exact hf.injOn name (mem_occurring_of_mem_rightNames (List.mem_filter.mp hname).1) other
    (mem_occurring_of_mem_rightNames (List.mem_filter.mp hother).1)

theorem idxOf?_rename (hname : name ∈ occurring rules) :
    ((leftSides rules ++ terminalNames rules).map f).idxOf? (f name) =
      (leftSides rules ++ terminalNames rules).idxOf? name :=
  idxOf?_map_of_injOn fun other hother =>
    hf.injOn other (mem_occurring_of_mem_names hother) name hname

theorem number_rename (hname : name ∈ occurring rules) :
    number ((leftSides rules ++ terminalNames rules).map f) (f name) =
      number (leftSides rules ++ terminalNames rules) name := by
  rw [number, number, idxOf?_rename hf hname]

end Renames

end Rules

/-! ## The grammar -/

namespace Grammar

variable {g : Grammar} {f : String → String} {i root : Nat}

/-- The grammar with other names for its symbols. -/
def rename (f : String → String) (g : Grammar) : Grammar :=
  ⟨g.nonTerminals.map fun nt => ⟨f nt.name, nt.productions⟩, g.terminals.map f⟩

theorem ofRules_rename {rules : List Rule} (hf : Rules.Renames f rules) :
    ofRules (Rules.rename f rules) = (ofRules rules).map (rename f) := by
  have hnil : (Rules.rename f rules).isEmpty = rules.isEmpty := by
    cases rules <;> rfl
  rw [ofRules, ofRules, hnil]
  split
  · rfl
  · have hmap : (Rules.leftSides rules ++ Rules.terminalNames rules).map f =
        (Rules.leftSides rules).map f ++ (Rules.terminalNames rules).map f := List.map_append
    simp only [Except.map, rename, Rules.leftSides_rename hf, Rules.terminalNames_rename hf,
      List.map_map, ← hmap]
    congr 2
    refine List.map_congr_left fun left hleft => congrArg (NonTerminal.mk (f left)) ?_
    rw [Rules.alternativesFor_rename hf hleft, List.map_map]
    refine List.map_congr_left fun alternative halt => ?_
    show List.map _ (List.map f alternative) = _
    rw [List.map_map]
    exact List.map_congr_left fun name hname => Rules.number_rename hf
      (Rules.mem_occurring_of_mem_rightNames
        (Rules.mem_rightNames_of_mem_alternativesFor hleft halt hname))

theorem symbols_rename (f : String → String) (g : Grammar) :
    (g.rename f).symbols = g.symbols.map (Symbol.rename f) := by
  simp [symbols, rename, Symbol.rename, Function.comp_def]

@[simp] theorem length_nonTerminals_rename (f : String → String) (g : Grammar) :
    (g.rename f).nonTerminals.length = g.nonTerminals.length :=
  List.length_map _

@[simp] theorem symbolCount_rename (f : String → String) (g : Grammar) :
    (g.rename f).symbolCount = g.symbolCount := by
  rw [symbolCount, symbolCount, symbols_rename, List.length_map]

@[simp] theorem nonTerminalIndexes_rename (f : String → String) (g : Grammar) :
    (g.rename f).nonTerminalIndexes = g.nonTerminalIndexes := by
  rw [nonTerminalIndexes, nonTerminalIndexes, length_nonTerminals_rename]

@[simp] theorem isNonTerminal_rename : (g.rename f).IsNonTerminal i ↔ g.IsNonTerminal i := by
  rw [IsNonTerminal, IsNonTerminal, length_nonTerminals_rename]

@[simp] theorem alternatives_rename (f : String → String) (g : Grammar) (i : Nat) :
    (g.rename f).alternatives i = g.alternatives i := by
  rw [alternatives, alternatives, nonTerminal?, nonTerminal?]
  split
  · simp only [rename, List.getElem?_map]
    cases g.nonTerminals[i - start]? <;> rfl
  · rfl

@[simp] theorem productions_rename (f : String → String) (g : Grammar) :
    (g.rename f).productions = g.productions := by
  rw [productions, productions, nonTerminalIndexes_rename]
  simp only [alternatives_rename]

/-! ## The sets -/

@[simp] theorem firstLimit_rename (f : String → String) (g : Grammar) :
    (g.rename f).firstLimit = g.firstLimit := by
  have hstart : (g.rename f).firstStart = g.firstStart := by
    simp [firstStart]
  have hpass : (g.rename f).firstPass = g.firstPass := by
    funext t
    rw [firstPass, firstPass, productions_rename]
  rw [firstLimit, firstLimit, hstart, hpass]

theorem occurrences_rename (f : String → String) (g : Grammar) :
    (g.rename f).occurrences = g.occurrences := by
  have hin (left : Nat) (string : List Nat) :
      (g.rename f).occurrencesIn left string = g.occurrencesIn left string := by
    induction string with
    | nil => rfl
    | cons i rest ih => simp only [occurrencesIn, isNonTerminal_rename, ih]
  rw [occurrences, occurrences, productions_rename]
  simp only [hin]

@[simp] theorem followLimit_rename (f : String → String) (g : Grammar) (first : SetTable) :
    (g.rename f).followLimit first = g.followLimit first := by
  have hpass : (g.rename f).followPass first = g.followPass first := by
    funext t
    rw [followPass, followPass, occurrences_rename]
  rw [followLimit, followLimit, followStart, followStart, symbolCount_rename, hpass]

theorem analysis_rename (f : String → String) (g : Grammar) :
    (g.rename f).analysis = g.analysis := by
  simp only [analysis, first, follow, firstLimit_rename, followLimit_rename]

/-! ## Left recursion -/

theorem productionTo?_rename (f : String → String) (g : Grammar) (i j : Nat) :
    (g.rename f).productionTo? i j = g.productionTo? i j := by
  rw [productionTo?, productionTo?, alternatives_rename]

theorem sameCorners_rename (f : String → String) (g : Grammar) :
    SameCorners g (g.rename f) id id where
  isNonTerminal _ := isNonTerminal_rename.mpr
  injOn _ _ _ _ h := h
  leftCorners i _ := by
    simp only [isNonTerminal_rename, List.map_id, id_eq]
    rw [leftCorners, leftCorners, alternatives_rename]
  productionTo? i j _ _ := by
    rw [Option.map_id]
    exact productionTo?_rename f g i j

theorem names_rename (f : String → String) (g : Grammar) : (g.rename f).names = g.names.map f := by
  simp [names, rename, Function.comp_def]

theorem name_rename (heps : f epsilonName = epsilonName) (hi : i < g.symbolCount)
    (hend : i ≠ endMark) : (g.rename f).name i = f (g.name i) := by
  rcases Nat.lt_or_ge i start with hlt | hle
  · -- the end mark is the other marker, and keeps its name
    obtain rfl : i = epsilon := Nat.lt_one_iff.mp
      (Nat.lt_of_le_of_ne (Nat.le_of_lt_succ hlt) hend)
    exact heps.symm
  · have hk : i - start < g.names.length := by
      rw [symbolCount_eq_length_names] at hi
      omega
    rw [name, name, name?_eq_getElem? hle, name?_eq_getElem? hle, names_rename, List.getElem?_map,
      List.getElem?_eq_getElem hk]
    rfl

theorem reportCycle_rename (hg : g.WellFormed) (heps : f epsilonName = epsilonName)
    (hroot : g.IsNonTerminal root) {cycle : List Production} (h : g.leftCycle? root = some cycle) :
    (g.rename f).reportCycle root cycle = (g.reportCycle root cycle).rename f := by
  have hname {i : Nat} (hi : g.IsNonTerminal i) : (g.rename f).name i = f (g.name i) :=
    name_rename heps hi.lt_symbolCount (Nat.ne_of_gt hi.1)
  rw [reportCycle, reportCycle, LeftRecursion.rename, hname hroot, List.map_map]
  refine congrArg _ (List.map_congr_left fun p hp => ?_)
  have hp := mem_productions_of_mem_leftCycle? hroot h hp
  have hright : (g.rename f).spell p.right = (g.spell p.right).map f := by
    rw [spell, spell, List.map_map]
    exact List.map_congr_left fun i hi =>
      name_rename heps (hg.lt_of_mem_right p hp i hi) (hg.ne_endMark_of_mem_right p hp i hi)
  exact Prod.ext (hname (g.isNonTerminal_of_mem_productions hp)) hright

theorem leftRecursion?_rename (hg : g.WellFormed) (heps : f epsilonName = epsilonName) :
    (g.rename f).leftRecursion? = g.leftRecursion?.map (LeftRecursion.rename f) := by
  have hreport := (sameCorners_rename f g).findSome?_report (e := LeftRecursion.rename f)
    fun i cycle hi hcycle => by
      rw [List.map_id]
      exact reportCycle_rename hg heps hi hcycle
  rwa [List.map_id, ← nonTerminalIndexes_rename f g] at hreport

/-! ## The table of symbols -/

theorem entries_rename {t t' : SymbolTable} (h : t.Holds g) (h' : t'.Holds (g.rename f)) :
    t'.entries = t.entries.map (Entry.rename f) := by
  rw [h'.entries, symbols_rename, h.entries]
  refine List.ext_getElem? fun i => ?_
  simp only [List.getElem?_mapIdx, List.getElem?_map, Option.map_map]
  exact congrArg (Option.map · _) (funext (Entry.ofSymbol_rename f i))

theorem indexOf?_rename {rules : List Rule} (h : ofRules rules = .ok g)
    (hf : Rules.Renames f rules) {name : String} (hname : name ∈ Rules.occurring rules) :
    (g.rename f).indexOf? (f name) = g.indexOf? name := by
  rw [indexOf?, indexOf?, names_rename, names_of_ofRules h, Rules.idxOf?_rename hf hname]
  simp only [Rules.eq_epsilonName_iff hf hname]

/-! ## From the rules to the report -/

/-- Renamed rules make a grammar, or fail, together with the rules, and the tables of symbols that
interning makes of both differ in the names only. The grammars have the same symbols but for their
names, and the same productions and sets, by numbers. Left recursion is reported of the same
symbols, in the same way, and by the new names. -/
theorem sets_eq_of_renames {f : String → String} {rules : List Rule} (hf : Rules.Renames f rules) :
    (∀ e, ofRules rules = .error e ↔ ofRules (Rules.rename f rules) = .error e) ∧
    (∀ e, (RuleBuilder.ofRules rules).build = .error e ↔
      (RuleBuilder.ofRules (Rules.rename f rules)).build = .error e) ∧
    ∀ g, ofRules rules = .ok g → ∃ g', ofRules (Rules.rename f rules) = .ok g' ∧
      (∃ t t', (RuleBuilder.ofRules rules).build = .ok (t, start) ∧
        (RuleBuilder.ofRules (Rules.rename f rules)).build = .ok (t', start) ∧
        t'.entries = t.entries.map (Entry.rename f) ∧
        ∀ name ∈ Rules.occurring rules, t'.index? (f name) = t.index? name) ∧
      g'.symbols = g.symbols.map (Symbol.rename f) ∧ g'.productions = g.productions ∧
      g'.analysis = g.analysis ∧
      g'.leftRecursion? = g.leftRecursion?.map (LeftRecursion.rename f) ∧
      ∀ r, g.leftRecursion? = some r → (r.rename f).kind = r.kind := by
  have hrename := ofRules_rename hf
  refine ⟨fun e => ?_, fun e => ?_, fun g h => ?_⟩
  · rw [hrename]
    cases ofRules rules <;> simp [Except.map]
  · cases h : ofRules rules with
    | error e' =>
      have h' : ofRules (Rules.rename f rules) = .error e' := by rw [hrename, h]; rfl
      rw [RuleBuilder.build_ofRules_error h, RuleBuilder.build_ofRules_error h']
    | ok g =>
      have h' : ofRules (Rules.rename f rules) = .ok (g.rename f) := by rw [hrename, h]; rfl
      obtain ⟨t, ht, -⟩ := RuleBuilder.build_ofRules h
      obtain ⟨t', ht', -⟩ := RuleBuilder.build_ofRules h'
      simp [ht, ht']
  · have hg := wellFormed_of_ofRules h
    have h' : ofRules (Rules.rename f rules) = .ok (g.rename f) := by rw [hrename, h]; rfl
    obtain ⟨t, ht, hholds⟩ := RuleBuilder.build_ofRules h
    obtain ⟨t', ht', hholds'⟩ := RuleBuilder.build_ofRules h'
    refine ⟨g.rename f, h', ⟨t, t', ht, ht', entries_rename hholds hholds', fun name hname => ?_⟩,
      symbols_rename f g, productions_rename f g, analysis_rename f g,
      leftRecursion?_rename hg hf.epsilonName, fun r _ => r.kind_rename f⟩
    rw [hholds'.index?, hholds.index?, indexOf?_rename h hf hname]

/-- Rules with left recursion, and with a symbol that has the name of the end mark. -/
def dollarRules : List Rule :=
  [⟨"S", [["A", "$"]]⟩, ⟨"A", [["S", "ε"], ["x"]]⟩]

/-- The grammar of `dollarRules`. -/
def dollarGrammar : Grammar :=
  ⟨[⟨"S", [[3, 4]]⟩, ⟨"A", [[2, 0], [5]]⟩], ["$", "x"]⟩

/-- The symbols of `dollarRules` change their names in pairs. -/
def swapNames (name : String) : String :=
  if name = "S" then "A" else if name = "A" then "S"
  else if name = "$" then "x" else if name = "x" then "$" else name

/-- The sets stay, and the report has the other names. -/
theorem sets_eq_of_renames_dollar : Rules.Renames swapNames dollarRules ∧
    Rules.rename swapNames dollarRules = [⟨"A", [["S", "x"]]⟩, ⟨"S", [["A", "ε"], ["$"]]⟩] ∧
    ofRules dollarRules = .ok dollarGrammar ∧
    ∃ g', ofRules [⟨"A", [["S", "x"]]⟩, ⟨"S", [["A", "ε"], ["$"]]⟩] = .ok g' ∧
      g'.analysis = dollarGrammar.analysis ∧
      g'.leftRecursion? = some ⟨"A", [("A", ["S", "x"]), ("S", ["A", "ε"])]⟩ := by
  have hf : Rules.Renames swapNames dollarRules := ⟨by decide +kernel, by decide +kernel⟩
  have hrules : Rules.rename swapNames dollarRules =
      [⟨"A", [["S", "x"]]⟩, ⟨"S", [["A", "ε"], ["$"]]⟩] := by decide +kernel
  have hok : ofRules dollarRules = .ok dollarGrammar := by decide +kernel
  have hreport : dollarGrammar.leftRecursion? =
      some ⟨"S", [("S", ["A", "$"]), ("A", ["S", "ε"])]⟩ := by cbv
  obtain ⟨-, -, hgrammar⟩ := sets_eq_of_renames hf
  obtain ⟨g', hg', -, -, -, hanalysis, hrecursion, -⟩ := hgrammar _ hok
  rw [hrules] at hg'
  refine ⟨hf, hrules, hok, g', hg', hanalysis, ?_⟩
  rw [hrecursion, hreport]
  decide +kernel

end Grammar

end Lookahead
