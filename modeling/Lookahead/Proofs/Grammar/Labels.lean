import Mathlib.Data.Set.Basic
import Lookahead.IndexSet
import Lookahead.Proofs.Grammar.Representation

/-!
# Symbols by kind and name

The numbers of a grammar depend on the order of its rules. What stays is the kind of a symbol and
its name (`Label`). A symbol of one grammar and one of another are the same if they have the same
label (`Grammar.SameLabel`), and sets of them are compared by their labels (`Grammar.labelSet`).
The grammar of rules has no label twice (`WellFormed.nodup_labels`),
though a marker and a symbol of the grammar may share a name.
-/

namespace Lookahead

/-- The kind and the name of a symbol. -/
inductive Label
  | epsilon
  | endMark
  | nonTerminal (name : String)
  | terminal (name : String)
deriving DecidableEq, Repr

def Symbol.label : Symbol → Label
  | epsilon => .epsilon
  | endMark => .endMark
  | nonTerminal nt => .nonTerminal nt.name
  | terminal name => .terminal name

namespace Grammar

variable {g : Grammar} {rules : List Rule} {i j : Nat} {name : String}

/-- The labels of the symbols in the order of their numbers. -/
def labels (g : Grammar) : List Label :=
  g.symbols.map Symbol.label

/-- The label of the number `i`, if it is in use. -/
def label? (g : Grammar) (i : Nat) : Option Label :=
  g.labels[i]?

/-- The numbers belong to symbols of one kind and name in the two grammars. -/
def SameLabel (g g' : Grammar) (i i' : Nat) : Prop :=
  ∃ l, g.label? i = some l ∧ g'.label? i' = some l

instance (g g' : Grammar) (i i' : Nat) : Decidable (SameLabel g g' i i') :=
  decidable_of_iff ((g.label? i).isSome ∧ g.label? i = g'.label? i') <| by
    cases h : g.label? i <;> simp [SameLabel, h, eq_comm]

/-- The labels of a set of numbers; a number that is not in use has none. -/
def labelSet (g : Grammar) (s : IndexSet) : Set (Option Label) :=
  {l | ∃ k ∈ s, g.label? k = l}

theorem SameLabel.symm {g' : Grammar} {i' : Nat} (h : SameLabel g g' i i') :
    SameLabel g' g i' i := by
  obtain ⟨l, h, h'⟩ := h
  exact ⟨l, h', h⟩

theorem length_labels (g : Grammar) : g.labels.length = g.symbolCount := by
  rw [labels, List.length_map, symbolCount]

/-- The labels of the grammar of rules are known from the names on the left and on the right. -/
theorem labels_of_ofRules (h : ofRules rules = .ok g) : g.labels =
    .epsilon :: .endMark :: ((Rules.leftSides rules).map .nonTerminal ++
      (Rules.terminalNames rules).map .terminal) := by
  obtain ⟨-, hn, ht⟩ := ofRules_eq_ok h
  rw [labels, symbols, hn, ht]
  simp [Symbol.label, Function.comp_def]

theorem label?_eq_map (g : Grammar) (i : Nat) : g.label? i = (g.symbol? i).map Symbol.label := by
  rw [label?, labels, List.getElem?_map, symbol?]

theorem label?_isSome_iff : (g.label? i).isSome ↔ i < g.symbolCount := by
  rw [label?, ← length_labels]
  simp

theorem name_of_symbol? {symbol : Symbol} (h : g.symbol? i = some symbol) :
    g.name i = symbol.name := by
  rw [Grammar.name, name?, h]
  rfl

theorem label?_of_isNonTerminal (h : g.IsNonTerminal i) :
    g.label? i = some (.nonTerminal (g.name i)) := by
  obtain ⟨nt, hs, -⟩ := symbol?_of_isNonTerminal h
  rw [label?_eq_map, name_of_symbol? hs, hs]
  rfl

theorem label?_of_isTerminal (h : g.IsTerminal i) : g.label? i = some (.terminal (g.name i)) := by
  obtain ⟨name, hs⟩ := symbol?_of_isTerminal h
  rw [label?_eq_map, name_of_symbol? hs, hs]
  rfl

theorem WellFormed.nodup_labels (hg : g.WellFormed) : g.labels.Nodup := by
  have hnames := List.nodup_append.mp hg.nodup_names
  have hnonTerminals := hnames.1.map (f := Label.nonTerminal) fun _ _ => Label.nonTerminal.inj
  have hterminals := hnames.2.1.map (f := Label.terminal) fun _ _ => Label.terminal.inj
  have hlabels : g.labels = .epsilon :: .endMark ::
      ((g.nonTerminals.map (·.name)).map .nonTerminal ++ g.terminals.map .terminal) := by
    simp [labels, symbols, Symbol.label, Function.comp_def]
  rw [hlabels]
  simp only [List.nodup_cons, List.nodup_append, List.mem_cons, List.mem_append, List.mem_map]
  refine ⟨by simp, by simp, hnonTerminals, hterminals, ?_⟩
  rintro _ ⟨left, -, rfl⟩ _ ⟨name, -, rfl⟩
  simp

/-- No two symbols share a label. -/
theorem WellFormed.label?_injective (hg : g.WellFormed) (hi : i < g.symbolCount)
    (h : g.label? i = g.label? j) : i = j :=
  (List.getElem?_inj (g.length_labels ▸ hi) hg.nodup_labels).mp h

end Grammar

end Lookahead
