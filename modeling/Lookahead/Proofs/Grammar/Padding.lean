import Lookahead.Proofs.Grammar.Extension
import Lookahead.Proofs.Sets.SameDerivations

/-!
# More markers in the rules

The empty string may be written into an alternative at any place and any number of times
(`Rules.Padded`), also where there was nothing. If no rule defines `ε` as a non-terminal, this
changes neither the symbols nor the sets, as a derivation leaves the marker out
(`sameDerivations_of_padded`).

Left recursion sees the marker. A production with a marker in front has lost its left corner, and
none has gained one (`leftEdge_of_padded`). So left recursion can only get lost.
-/

namespace Lookahead

open Grammar (epsilon start)
open Rules (number leftSides alternativesFor)

namespace Rules

variable {rules rules' : List Rule} {alternative alternative' : List String} {left name : String}
  {p : String → Bool}

/-- The second alternative is the first with markers put in. -/
inductive PaddedAlternative : List String → List String → Prop
  | nil : PaddedAlternative [] []
  | keep (name : String) {alternative alternative' : List String}
    (rest : PaddedAlternative alternative alternative') :
    PaddedAlternative (name :: alternative) (name :: alternative')
  | mark {alternative alternative' : List String}
    (rest : PaddedAlternative alternative alternative') :
    PaddedAlternative alternative (epsilonName :: alternative')

/-- The second list has the rules of the first, with markers put into their alternatives. -/
def Padded (rules rules' : List Rule) : Prop :=
  List.Forall₂ (fun r r' => r.left = r'.left ∧
    List.Forall₂ PaddedAlternative r.alternatives r'.alternatives) rules rules'

namespace PaddedAlternative

theorem filter_eq (h : PaddedAlternative alternative alternative') (hp : p epsilonName = false) :
    alternative'.filter p = alternative.filter p := by
  induction h with
  | nil => rfl
  | keep name _ ih => rw [List.filter_cons, List.filter_cons, ih]
  | mark _ ih => rw [List.filter_cons_of_neg (by simp [hp]), ih]

theorem head?_eq (h : PaddedAlternative alternative alternative') (hne : name ≠ epsilonName)
    (hname : alternative'.head? = some name) : alternative.head? = some name := by
  cases h with
  | nil => exact hname
  | keep => exact hname
  | mark => exact absurd (Option.some.inj hname).symm hne

theorem unmarked_map_number {names : List String} (h : PaddedAlternative alternative alternative')
    (heps : epsilonName ∉ names) : Grammar.unmarked (alternative'.map (number names)) =
      Grammar.unmarked (alternative.map (number names)) := by
  rw [Grammar.unmarked, Grammar.unmarked, List.filter_map, List.filter_map]
  exact congrArg _ (h.filter_eq (by simp [number_of_not_mem heps]))

end PaddedAlternative

/-- What is in the first of two lists that are related item by item has its like in the second. -/
theorem exists_mem_of_forall₂ {α β : Type} {R : α → β → Prop} {xs : List α} {ys : List β}
    (h : List.Forall₂ R xs ys) {x : α} (hx : x ∈ xs) : ∃ y ∈ ys, R x y := by
  induction h with
  | nil => simp at hx
  | cons hr _ ih =>
    rcases List.mem_cons.mp hx with rfl | hx
    · exact ⟨_, List.mem_cons_self, hr⟩
    · obtain ⟨y, hy, hxy⟩ := ih hx
      exact ⟨y, List.mem_cons_of_mem _ hy, hxy⟩

theorem filter_flatten_eq {alternatives alternatives' : List (List String)}
    (h : List.Forall₂ PaddedAlternative alternatives alternatives') (hp : p epsilonName = false) :
    alternatives'.flatten.filter p = alternatives.flatten.filter p := by
  induction h with
  | nil => rfl
  | cons halt _ ih =>
    rw [List.flatten_cons, List.flatten_cons, List.filter_append, List.filter_append,
      halt.filter_eq hp, ih]

namespace Padded

variable (h : Padded rules rules')
include h

theorem leftSides_eq : leftSides rules' = leftSides rules := by
  have hlefts : rules'.map (·.left) = rules.map (·.left) := by
    induction h with
    | nil => rfl
    | cons hr _ ih => rw [List.map_cons, List.map_cons, hr.1, ih]
  rw [leftSides, leftSides, hlefts]

theorem alternativesFor (left : String) : List.Forall₂ PaddedAlternative
    (alternativesFor rules left) (Rules.alternativesFor rules' left) := by
  refine List.rel_flatMap (List.rel_filter (fun r r' hr => ?_) h) fun r r' hr => hr.2
  simp [hr.1]

theorem filter_rightNames (hp : p epsilonName = false) :
    (rightNames rules').filter p = (rightNames rules).filter p := by
  rw [rightNames, rightNames, h.leftSides_eq, List.filter_flatMap, List.filter_flatMap]
  exact List.flatMap_congr fun left _ => filter_flatten_eq (h.alternativesFor left) hp

theorem terminalNames_eq : terminalNames rules' = terminalNames rules := by
  rw [terminalNames, terminalNames, h.leftSides_eq, h.filter_rightNames (by simp)]

end Padded

end Rules

namespace Grammar

variable {g g' : Grammar} {rules rules' : List Rule} {p q : Production} {i j : Nat}

theorem ofRules_eq_error_iff_of_padded (h : Rules.Padded rules rules') {e : GrammarError} :
    ofRules rules = .error e ↔ ofRules rules' = .error e := by
  have hnil : rules = [] ↔ rules' = [] := by
    rw [← Rules.leftSides_eq_nil_iff, ← h.leftSides_eq, Rules.leftSides_eq_nil_iff]
  rw [ofRules_eq_error_iff, ofRules_eq_error_iff, hnil]

/-- The marker has no place of its own among the names unless a rule defines it. -/
theorem epsilonName_not_mem_names (h : ofRules rules = .ok g) (heps : epsilonName ∉ leftSides rules) :
    epsilonName ∉ g.names := by
  rw [names_of_ofRules h, List.mem_append, Rules.mem_terminalNames]
  exact fun hmem => hmem.elim heps fun hterminal => hterminal.2.2 rfl

section

variable (hpad : Rules.Padded rules rules') (h : ofRules rules = .ok g)
  (h' : ofRules rules' = .ok g')
include hpad h h'

/-! ## Symbols -/

theorem labels_of_padded : g'.labels = g.labels := by
  rw [labels_of_ofRules h, labels_of_ofRules h', hpad.leftSides_eq, hpad.terminalNames_eq]

theorem names_of_padded : g'.names = g.names := by
  rw [names_of_ofRules h, names_of_ofRules h', hpad.leftSides_eq, hpad.terminalNames_eq]

/-- The tables of symbols have the same numbers and warnings. -/
theorem build_of_padded : ∃ t t', (RuleBuilder.ofRules rules).build = .ok (t, start) ∧
    (RuleBuilder.ofRules rules').build = .ok (t', start) ∧ t.Holds g ∧ t'.Holds g' ∧
    (∀ name, t'.index? name = t.index? name) ∧ t'.warnings = t.warnings := by
  obtain ⟨t, hbuild, ht⟩ := RuleBuilder.build_ofRules h
  obtain ⟨t', hbuild', ht'⟩ := RuleBuilder.build_ofRules h'
  refine ⟨t, t', hbuild, hbuild', ht, ht', fun name => ?_, ?_⟩
  · rw [ht.index?, ht'.index?, indexOf?, indexOf?, names_of_padded hpad h h']
  · rw [ht.warnings, ht'.warnings, suspects, suspects, (ofRules_eq_ok h).2.2,
      (ofRules_eq_ok h').2.2, hpad.terminalNames_eq]

/-! ## Productions -/

theorem exists_padded_of_mem_productions (hp : p ∈ g.productions) : ∃ left alternative alternative',
    Rules.PaddedAlternative alternative alternative' ∧
    p = ⟨number g.names left, alternative.map (number g.names)⟩ ∧
    ⟨number g.names left, alternative'.map (number g.names)⟩ ∈ g'.productions := by
  obtain ⟨left, hleft, alternative, halt, rfl⟩ := (mem_productions_of_ofRules h).mp hp
  obtain ⟨alternative', halt', hpadded⟩ :=
    Rules.exists_mem_of_forall₂ (hpad.alternativesFor left) halt
  refine ⟨left, alternative, alternative', hpadded, rfl, (mem_productions_of_ofRules h').mpr
    ⟨left, hpad.leftSides_eq ▸ hleft, alternative', halt', ?_⟩⟩
  rw [names_of_padded hpad h h']

theorem exists_of_mem_productions_padded (hq : q ∈ g'.productions) :
    ∃ left alternative alternative', Rules.PaddedAlternative alternative alternative' ∧
      ⟨number g.names left, alternative.map (number g.names)⟩ ∈ g.productions ∧
      q = ⟨number g.names left, alternative'.map (number g.names)⟩ := by
  obtain ⟨left, hleft, alternative', halt', rfl⟩ := (mem_productions_of_ofRules h').mp hq
  obtain ⟨alternative, halt, hpadded⟩ :=
    Rules.exists_mem_of_forall₂ (hpad.alternativesFor left).flip halt'
  refine ⟨left, alternative, alternative', hpadded, (mem_productions_of_ofRules h).mpr
    ⟨left, hpad.leftSides_eq ▸ hleft, alternative, halt, rfl⟩, ?_⟩
  rw [names_of_padded hpad h h']

variable (heps : epsilonName ∉ leftSides rules)
include heps

theorem sameDerivations_of_padded : SameDerivations g g' := by
  have hnames := epsilonName_not_mem_names h heps
  refine .of_unmarked ?_ ?_ (fun p hp => ?_) fun q hq => ?_
  · rw [length_nonTerminals_of_ofRules h, length_nonTerminals_of_ofRules h', hpad.leftSides_eq]
  · rw [(ofRules_eq_ok h).2.2, (ofRules_eq_ok h').2.2, hpad.terminalNames_eq]
  · obtain ⟨left, alternative, alternative', hpadded, rfl, hq⟩ :=
      exists_padded_of_mem_productions hpad h h' hp
    exact ⟨_, hq, rfl, hpadded.unmarked_map_number hnames⟩
  · obtain ⟨left, alternative, alternative', hpadded, hp, rfl⟩ :=
      exists_of_mem_productions_padded hpad h h' hq
    exact ⟨_, hp, rfl, (hpadded.unmarked_map_number hnames).symm⟩

/-- What comes first behind no marker came first before. -/
theorem leftEdge_of_padded (hij : g'.LeftEdge i j) : g.LeftEdge i j := by
  obtain ⟨hj, q, hq, rfl, hhead⟩ := leftEdge_iff.mp hij
  obtain ⟨left, alternative, alternative', hpadded, hp, rfl⟩ :=
    exists_of_mem_productions_padded hpad h h' hq
  have hsame := sameDerivations_of_padded hpad h h' heps
  refine leftEdge_iff.mpr ⟨hsame.isNonTerminal_iff.mpr hj, _, hp, rfl, ?_⟩
  rw [List.head?_map, Option.map_eq_some_iff] at hhead ⊢
  obtain ⟨name, hname, rfl⟩ := hhead
  have hne : name ≠ epsilonName := by
    rintro rfl
    exact hj.ne_epsilon (number_of_not_mem (epsilonName_not_mem_names h heps))
  exact ⟨name, hpadded.head?_eq hne hname, rfl⟩

end

/-- Rules, and the same rules with markers put into their alternatives, make a grammar, or fail,
together. Unless `ε` is one of the left sides, the grammars have the same symbols at the same
numbers, by kind and name, the same table of names and the same warnings, and the same FIRST and
FOLLOW of every symbol. If there is left recursion with the markers, there is without. -/
theorem sets_eq_of_padded (hpad : Rules.Padded rules rules') (heps : epsilonName ∉ leftSides rules) :
    (∀ e, ofRules rules = .error e ↔ ofRules rules' = .error e) ∧
    ∀ g g', ofRules rules = .ok g → ofRules rules' = .ok g' →
      (g'.labels = g.labels ∧ ∀ name, g'.indexOf? name = g.indexOf? name) ∧
      (∃ t t', (RuleBuilder.ofRules rules).build = .ok (t, start) ∧
        (RuleBuilder.ofRules rules').build = .ok (t', start) ∧ t.Holds g ∧ t'.Holds g' ∧
        (∀ name, t'.index? name = t.index? name) ∧ t'.warnings = t.warnings) ∧
      g'.first = g.first ∧ g'.follow g'.first = g.follow g.first ∧
      (g'.leftRecursion?.isSome → g.leftRecursion?.isSome) := by
  refine ⟨fun e => ofRules_eq_error_iff_of_padded hpad, fun g g' h h' => ?_⟩
  have hg := wellFormed_of_ofRules h
  have hg' := wellFormed_of_ofRules h'
  have hsame := sameDerivations_of_padded hpad h h' heps
  refine ⟨⟨labels_of_padded hpad h h', fun name => ?_⟩, build_of_padded hpad h h',
    (hsame.first_eq hg hg').symm, (hsame.follow_eq hg hg').symm,
    isSome_leftRecursion?_of_leftEdge (f := id) fun _ _ => leftEdge_of_padded hpad h h' heps⟩
  rw [indexOf?, indexOf?, names_of_padded hpad h h']

/-- Rules in which both left sides come first in one of their alternatives. -/
def unpaddedRules : List Rule :=
  [⟨"S", [["S", "a"], []]⟩, ⟨"B", [["B", "S"], ["C"]]⟩]

/-- The grammar of `unpaddedRules`. -/
def unpaddedGrammar : Grammar :=
  ⟨[⟨"S", [[2, 4], []]⟩, ⟨"B", [[3, 2], [5]]⟩], ["a", "C"]⟩

/-- The same rules with markers in front of `S`, in the place of nothing, and between. -/
def paddedRules : List Rule :=
  [⟨"S", [["ε", "S", "a"], ["ε", "ε"]]⟩, ⟨"B", [["B", "ε", "S"], ["C", "ε"]]⟩]

/-- The grammar of `paddedRules`. -/
def paddedGrammar : Grammar :=
  ⟨[⟨"S", [[0, 2, 4], [0, 0]]⟩, ⟨"B", [[3, 0, 2], [5, 0]]⟩], ["a", "C"]⟩

/-- The sets are the same. The left recursion of `S` is gone, and that of `B` is there. -/
theorem sets_eq_of_padded_front : Rules.Padded unpaddedRules paddedRules ∧
    paddedGrammar.first = unpaddedGrammar.first ∧
    paddedGrammar.follow paddedGrammar.first = unpaddedGrammar.follow unpaddedGrammar.first ∧
    unpaddedGrammar.leftRecursion?.isSome ∧
    unpaddedGrammar.leftRecursion?.map (·.nonTerminal) = some "S" ∧
    paddedGrammar.leftRecursion?.map (·.nonTerminal) = some "B" := by
  have hpad : Rules.Padded unpaddedRules paddedRules :=
    .cons ⟨rfl, .cons (.mark (.keep _ (.keep _ .nil))) (.cons (.mark (.mark .nil)) .nil)⟩
      (.cons ⟨rfl, .cons (.keep _ (.mark (.keep _ .nil))) (.cons (.keep _ (.mark .nil)) .nil)⟩ .nil)
  have hunpadded : ofRules unpaddedRules = .ok unpaddedGrammar := by decide +kernel
  have hpadded : ofRules paddedRules = .ok paddedGrammar := by decide +kernel
  obtain ⟨-, -, hfirst, hfollow, hrecursion⟩ :=
    (sets_eq_of_padded hpad (by decide)).2 _ _ hunpadded hpadded
  exact ⟨hpad, hfirst, hfollow, hrecursion (by cbv), by cbv, by cbv⟩

end Grammar

end Lookahead
