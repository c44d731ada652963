/-!
# Grammars

A context-free grammar over symbols that are numbered once and for all: 0 is the empty string `ε`,
1 is the end mark `$`, then come the non-terminals and after them the terminals. The first
non-terminal is the start symbol. `ε` and `$` are markers rather than symbols of the language; a
rule may write `ε` for the empty string, and `$` only as an ordinary name.

* `symbol?` reads a number, `indexOf?` finds the number of a name.
* `mem_productions` : the productions of the grammar are those of its non-terminals, one by one.
-/

namespace Lookahead

/-- The name rules use for the empty string. -/
def epsilonName : String := "ε"

/-- The name reports use for the end of the input. -/
def endMarkName : String := "$"

/-- A non-terminal with its alternatives, each a string of symbol numbers. -/
structure NonTerminal where
  name : String
  productions : List (List Nat)
deriving DecidableEq, Repr

/-- What a number of a grammar stands for. -/
inductive Symbol
  | epsilon
  | endMark
  | nonTerminal (nt : NonTerminal)
  | terminal (name : String)
deriving DecidableEq, Repr

namespace Symbol

def name : Symbol → String
  | epsilon => epsilonName
  | endMark => endMarkName
  | nonTerminal nt => nt.name
  | terminal name => name

def isNonTerminal : Symbol → Bool
  | nonTerminal _ => true
  | _ => false

def isTerminal : Symbol → Bool
  | terminal _ => true
  | _ => false

end Symbol

/-- A non-terminal, by number, with a string of symbols that may take its place. -/
structure Production where
  left : Nat
  right : List Nat
deriving DecidableEq, Repr

/-- A context-free grammar. The first non-terminal is the start symbol. -/
structure Grammar where
  nonTerminals : List NonTerminal
  terminals : List String
deriving DecidableEq, Repr

namespace Grammar

/-- The number of the empty string. -/
abbrev epsilon : Nat := 0

/-- The number of the end mark. -/
abbrev endMark : Nat := 1

/-- The number of the first non-terminal. -/
abbrev start : Nat := 2

variable (g : Grammar)

/-- The symbols in the order of their numbers. -/
def symbols : List Symbol :=
  .epsilon :: .endMark :: (g.nonTerminals.map .nonTerminal ++ g.terminals.map .terminal)

/-- How many numbers are in use, the two markers included. -/
def symbolCount : Nat :=
  g.symbols.length

/-- What the number `i` stands for, if it is in use. -/
def symbol? (i : Nat) : Option Symbol :=
  g.symbols[i]?

/-- The non-terminal with the number `i`. -/
def nonTerminal? (i : Nat) : Option NonTerminal :=
  if start ≤ i then g.nonTerminals[i - start]? else none

/-- `i` is the number of a non-terminal. -/
def IsNonTerminal (i : Nat) : Prop :=
  start ≤ i ∧ i < start + g.nonTerminals.length

instance (i : Nat) : Decidable (g.IsNonTerminal i) :=
  inferInstanceAs (Decidable (_ ∧ _))

/-- `i` is the number of a terminal. -/
def IsTerminal (i : Nat) : Prop :=
  start + g.nonTerminals.length ≤ i ∧ i < g.symbolCount

instance (i : Nat) : Decidable (g.IsTerminal i) :=
  inferInstanceAs (Decidable (_ ∧ _))

/-- The names of the non-terminals and then of the terminals. -/
def names : List String :=
  g.nonTerminals.map (·.name) ++ g.terminals

/-- The name of the number `i`, if it is in use. -/
def name? (i : Nat) : Option String :=
  (g.symbol? i).map Symbol.name

/-- The name of the number `i`; no name belongs to a number that is not in use. -/
def name (i : Nat) : String :=
  (g.name? i).getD ""

/-- The number of a name. The name of the empty string belongs to the marker unless a symbol of
the grammar has taken it; the name of the end mark never belongs to the marker. -/
def indexOf? (name : String) : Option Nat :=
  match g.names.idxOf? name with
  | some k => some (start + k)
  | none => if name = epsilonName then some epsilon else none

/-- The numbers of the non-terminals, in order. -/
def nonTerminalIndexes : List Nat :=
  List.range' start g.nonTerminals.length

/-- The numbers of the terminals, in order. -/
def terminalIndexes : List Nat :=
  List.range' (start + g.nonTerminals.length) g.terminals.length

/-- The alternatives of the non-terminal with the number `i`. -/
def alternatives (i : Nat) : List (List Nat) :=
  ((g.nonTerminal? i).map (·.productions)).getD []

/-- All productions, by non-terminal and then by alternative. -/
def productions : List Production :=
  g.nonTerminalIndexes.flatMap fun i => (g.alternatives i).map (⟨i, ·⟩)

/-- A string of symbols by name. -/
def spell (string : List Nat) : List String :=
  string.map g.name

/-- A string of symbols by name, unless it holds a number that is not in use. -/
def spell? (string : List Nat) : Option (List String) :=
  string.mapM g.name?

/-- Whether a name is written like that of a non-terminal: with a capital ASCII letter in front. -/
def isCapitalized (name : String) : Bool :=
  name.toList.head?.any Char.isUpper

/-- The terminals that are written like non-terminals, so that a rule for them may have been
forgotten. -/
def suspects : List String :=
  g.terminals.filter isCapitalized

@[simp] theorem length_symbols :
    g.symbols.length = 2 + g.nonTerminals.length + g.terminals.length := by
  simp [symbols]
  omega

theorem symbolCount_eq : g.symbolCount = 2 + g.nonTerminals.length + g.terminals.length :=
  g.length_symbols

theorem mem_nonTerminalIndexes {i : Nat} : i ∈ g.nonTerminalIndexes ↔ g.IsNonTerminal i := by
  simp [nonTerminalIndexes, IsNonTerminal, List.mem_range'_1]

theorem nonTerminal?_isSome {i : Nat} : (g.nonTerminal? i).isSome ↔ g.IsNonTerminal i := by
  unfold nonTerminal? IsNonTerminal
  split <;> simp <;> omega

theorem mem_productions {p : Production} :
    p ∈ g.productions ↔ p.right ∈ g.alternatives p.left := by
  simp only [productions, List.mem_flatMap, List.mem_map, mem_nonTerminalIndexes]
  constructor
  · rintro ⟨i, _, r, hr, rfl⟩
    exact hr
  · intro h
    refine ⟨p.left, ?_, p.right, h, rfl⟩
    refine g.nonTerminal?_isSome.mp ?_
    cases hn : g.nonTerminal? p.left with
    | some _ => rfl
    | none => simp [alternatives, hn] at h

theorem isNonTerminal_of_mem_productions {p : Production} (h : p ∈ g.productions) :
    g.IsNonTerminal p.left := by
  simp only [productions, List.mem_flatMap, List.mem_map, mem_nonTerminalIndexes] at h
  obtain ⟨i, hi, r, _, rfl⟩ := h
  exact hi

end Grammar

end Lookahead
