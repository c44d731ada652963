import Lookahead.Grammar.Rules
import Lookahead.Proofs.FirstOccurrences

/-!
# Well-formed grammars

The data of a `Grammar` may say anything. A grammar that was made from rules
(`Grammar.ofRules`) keeps to what its readers rely on : there is a start symbol, no name
is given to two symbols, and a right side holds only numbers in use, the end mark not
among them (`Grammar.WellFormed`).

* `wellFormed_of_ofRules` : the grammar of a list of rules is well-formed.
* `WellFormed.indexOf?_name` : looking up the name of a symbol gives its number.
-/

namespace Lookahead

namespace Rules

theorem number_lt (names : List String) (name : String) :
    number names name < Grammar.start + names.length := by
  unfold number
  cases h : names.idxOf? name with
  | none =>
    show 0 < 2 + names.length
    omega
  | some k =>
    obtain ⟨hk, _⟩ := List.idxOf?_eq_some_iff.mp h
    show Grammar.start + k < _
    omega

theorem number_ne_endMark (names : List String) (name : String) :
    number names name ≠ Grammar.endMark := by
  unfold number
  cases names.idxOf? name with
  | none => simp
  | some k =>
    show 2 + k ≠ 1
    omega

theorem leftSides_eq_nil_iff {rules : List Rule} : leftSides rules = [] ↔ rules = [] := by
  cases rules <;> simp [leftSides, List.eraseDups_cons]

/-- The names of the symbols are distinct. -/
theorem nodup_leftSides_append_terminalNames (rules : List Rule) :
    (leftSides rules ++ terminalNames rules).Nodup := by
  refine List.nodup_append.mpr ⟨nodup_eraseDups _, nodup_eraseDups _, ?_⟩
  rintro left hleft name hname rfl
  exact (mem_terminalNames.mp hname).2.1 hleft

end Rules

namespace Grammar

/-- What readers of a grammar rely on. -/
structure WellFormed (g : Grammar) : Prop where
  nonTerminals_ne_nil : g.nonTerminals ≠ []
  nodup_names : g.names.Nodup
  lt_of_mem_right : ∀ p ∈ g.productions, ∀ i ∈ p.right, i < g.symbolCount
  ne_endMark_of_mem_right : ∀ p ∈ g.productions, ∀ i ∈ p.right, i ≠ endMark

variable {g : Grammar}

theorem exists_nonTerminal_of_mem_productions {p : Production} (h : p ∈ g.productions) :
    ∃ nt ∈ g.nonTerminals, p.right ∈ nt.productions := by
  have hr := (g.mem_productions).mp h
  unfold alternatives nonTerminal? at hr
  split at hr
  · cases hn : g.nonTerminals[p.left - start]? with
    | none => simp [hn] at hr
    | some nt => exact ⟨nt, List.mem_of_getElem? hn, by simpa [hn] using hr⟩
  · simp at hr

/-! ## Grammars made from rules -/

theorem ofRules_eq_ok {rules : List Rule} (h : ofRules rules = .ok g) :
    rules ≠ [] ∧ g.nonTerminals = (Rules.leftSides rules).map (fun left => ⟨left,
        (Rules.alternativesFor rules left).map
          (·.map (Rules.number (Rules.leftSides rules ++ Rules.terminalNames rules)))⟩) ∧
      g.terminals = Rules.terminalNames rules := by
  unfold ofRules at h
  split at h
  · simp at h
  · next hne =>
    obtain rfl := Except.ok.inj h
    exact ⟨fun hnil => hne (by simp [hnil]), rfl, rfl⟩

theorem names_of_ofRules {rules : List Rule} (h : ofRules rules = .ok g) :
    g.names = Rules.leftSides rules ++ Rules.terminalNames rules := by
  obtain ⟨-, hn, ht⟩ := ofRules_eq_ok h
  rw [names, hn, ht]
  simp [Function.comp_def]

theorem symbolCount_eq_length_names (g : Grammar) : g.symbolCount = start + g.names.length := by
  rw [symbolCount_eq]
  simp [names, Nat.add_assoc]

/-- A right side of the grammar of `rules` is an alternative of some rule, by number. -/
theorem exists_right_eq_map_number {rules : List Rule} (h : ofRules rules = .ok g) {p : Production}
    (hp : p ∈ g.productions) :
    ∃ alternative : List String, p.right = alternative.map (Rules.number g.names) := by
  obtain ⟨nt, hnt, hr⟩ := exists_nonTerminal_of_mem_productions hp
  obtain ⟨-, hn, -⟩ := ofRules_eq_ok h
  rw [hn] at hnt
  obtain ⟨left, -, rfl⟩ := List.mem_map.mp hnt
  obtain ⟨alternative, -, ha⟩ := List.mem_map.mp hr
  exact ⟨alternative, by rw [← ha, names_of_ofRules h]⟩

theorem wellFormed_of_ofRules {rules : List Rule} (h : ofRules rules = .ok g) : g.WellFormed where
  nonTerminals_ne_nil := by
    obtain ⟨hne, hn, -⟩ := ofRules_eq_ok h
    rwa [hn, Ne, List.map_eq_nil_iff, Rules.leftSides_eq_nil_iff]
  nodup_names := by
    rw [names_of_ofRules h]
    exact Rules.nodup_leftSides_append_terminalNames rules
  lt_of_mem_right p hp i hi := by
    obtain ⟨alternative, ha⟩ := exists_right_eq_map_number h hp
    rw [ha] at hi
    obtain ⟨name, -, rfl⟩ := List.mem_map.mp hi
    rw [symbolCount_eq_length_names]
    exact Rules.number_lt _ _
  ne_endMark_of_mem_right p hp i hi := by
    obtain ⟨alternative, ha⟩ := exists_right_eq_map_number h hp
    rw [ha] at hi
    obtain ⟨name, -, rfl⟩ := List.mem_map.mp hi
    exact Rules.number_ne_endMark _ _

/-! ## Names and numbers -/

/-- The symbols behind the markers. -/
theorem symbol?_start_add (g : Grammar) (k : Nat) : g.symbol? (start + k) =
    (g.nonTerminals.map Symbol.nonTerminal ++ g.terminals.map Symbol.terminal)[k]? := by
  rw [symbol?, symbols, Nat.add_comm]
  rfl

theorem name?_eq_getElem? {i : Nat} (h : start ≤ i) : g.name? i = g.names[i - start]? := by
  obtain ⟨k, rfl⟩ := Nat.exists_eq_add_of_le h
  have hnames : g.names = (g.symbols.drop start).map Symbol.name := by
    simp [names, symbols, Function.comp_def, Symbol.name]
  rw [name?, symbol?, hnames, List.getElem?_map, List.getElem?_drop, Nat.add_sub_cancel_left]

theorem IsNonTerminal.lt_symbolCount {i : Nat} (h : g.IsNonTerminal i) : i < g.symbolCount := by
  have hlt : i < 2 + g.nonTerminals.length := h.2
  rw [symbolCount_eq]
  omega

theorem IsNonTerminal.ne_epsilon {i : Nat} (h : g.IsNonTerminal i) : i ≠ epsilon := by
  have hle : 2 ≤ i := h.1
  show i ≠ 0
  omega

theorem IsNonTerminal.ne_endMark {i : Nat} (h : g.IsNonTerminal i) : i ≠ endMark := by
  rintro rfl
  exact absurd h.1 (by decide)

theorem isNonTerminal_or_isTerminal {i : Nat} (h : start ≤ i) (hi : i < g.symbolCount) :
    g.IsNonTerminal i ∨ g.IsTerminal i := by
  by_cases hn : i < start + g.nonTerminals.length
  · exact Or.inl ⟨h, hn⟩
  · exact Or.inr ⟨Nat.le_of_not_lt hn, hi⟩

/-- A number in use is that of a marker, of a non-terminal or of a terminal. -/
theorem cases_of_lt_symbolCount {i : Nat} (hi : i < g.symbolCount) :
    i = epsilon ∨ i = endMark ∨ g.IsNonTerminal i ∨ g.IsTerminal i := by
  rcases Nat.lt_or_ge i start with hlt | hge
  · have hlt' : i < 2 := hlt
    have : i = 0 ∨ i = 1 := by omega
    exact this.elim Or.inl fun h => Or.inr (Or.inl h)
  · exact Or.inr (Or.inr (isNonTerminal_or_isTerminal hge hi))

theorem IsTerminal.not_isNonTerminal {i : Nat} (h : g.IsTerminal i) : ¬g.IsNonTerminal i :=
  fun hn => absurd hn.2 (Nat.not_lt.mpr h.1)

theorem IsTerminal.ne_epsilon {i : Nat} (h : g.IsTerminal i) : i ≠ epsilon := by
  have hle : 2 + g.nonTerminals.length ≤ i := h.1
  show i ≠ 0
  omega

theorem IsTerminal.ne_endMark {i : Nat} (h : g.IsTerminal i) : i ≠ endMark := by
  have hle : 2 + g.nonTerminals.length ≤ i := h.1
  show i ≠ 1
  omega

namespace WellFormed

variable (hg : g.WellFormed)
include hg

theorem isNonTerminal_start : g.IsNonTerminal start := by
  have := List.length_pos_iff.mpr hg.nonTerminals_ne_nil
  exact ⟨Nat.le_refl _, by omega⟩

/-- The name of a symbol that is no marker leads back to its number. -/
theorem indexOf?_name {i : Nat} (h : start ≤ i) (hi : i < g.symbolCount) :
    g.indexOf? (g.name i) = some i := by
  rw [symbolCount_eq_length_names] at hi
  have hk : i - start < g.names.length := by omega
  have hname : g.name i = g.names[i - start] := by
    rw [name, name?_eq_getElem? h, List.getElem?_eq_getElem hk, Option.getD_some]
  rw [indexOf?, hname, idxOf?_getElem_of_nodup hg.nodup_names hk]
  show some (start + (i - start)) = some i
  congr 1
  omega

theorem name_injective {i j : Nat} (h : start ≤ i) (hi : i < g.symbolCount) (h' : start ≤ j)
    (hj : j < g.symbolCount) (hname : g.name i = g.name j) : i = j := by
  have := hg.indexOf?_name h hi
  rw [hname, hg.indexOf?_name h' hj] at this
  exact (Option.some.inj this).symm

end WellFormed

end Grammar

end Lookahead
