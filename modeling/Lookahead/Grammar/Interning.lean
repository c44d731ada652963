import Lookahead.Grammar.Rules

/-!
# Interning

`Grammar.ofRules` says what the grammar of a list of rules is. Here a grammar is put together in
one run over the rules : `RuleBuilder.add` collects them by their left sides, and
`RuleBuilder.build` numbers the names as they come up. First every left side gets a number, and
then the alternatives are read, where a name that has no number yet becomes the next terminal
(`SymbolTable.intern`).

A table of names starts with the name of the empty string, which a left side can take over, and
without the name of the end mark. A non-terminal has no productions until its alternatives have
been read.
-/

namespace Lookahead

/-- An entry of a table of symbols. Non-terminals hold their own number. -/
inductive Entry
  | epsilon
  | endMark
  | nonTerminal (index : Nat) (nt : NonTerminal)
  | terminal (name : String)
deriving DecidableEq, Repr

/-- The entry of a symbol with the number `i`. -/
def Entry.ofSymbol (i : Nat) : Symbol → Entry
  | .epsilon => .epsilon
  | .endMark => .endMark
  | .nonTerminal nt => .nonTerminal i nt
  | .terminal name => .terminal name

/-- A table of symbols under construction. -/
structure SymbolTable where
  entries : List Entry
  /-- The numbers of the names, the latest first. -/
  numbers : List (String × Nat)
  /-- The terminals that are written like non-terminals, as they came up. -/
  warnings : List String
deriving DecidableEq, Repr

namespace SymbolTable

/-- The table with the two markers. -/
def empty : SymbolTable :=
  ⟨[.epsilon, .endMark], [(epsilonName, Grammar.epsilon)], []⟩

def index? (t : SymbolTable) (name : String) : Option Nat :=
  t.numbers.lookup name

/-- The table with one more entry, found under the given name, and maybe a warning. -/
def push (t : SymbolTable) (name : String) (entry : Entry) (warning : List String) : SymbolTable :=
  ⟨t.entries ++ [entry], (name, t.entries.length) :: t.numbers, t.warnings ++ warning⟩

def addNonTerminal (name : String) : StateM SymbolTable Nat := fun t =>
  (t.entries.length, t.push name (.nonTerminal t.entries.length ⟨name, []⟩) [])

/-- Adds a terminal, with a warning if it is written like a non-terminal. -/
def addTerminal (name : String) : StateM SymbolTable Nat := fun t =>
  (t.entries.length,
    t.push name (.terminal name) (if Grammar.isCapitalized name then [name] else []))

/-- The number of a name on the right. A name without a number becomes a terminal. -/
def intern (name : String) : StateM SymbolTable Nat := fun t =>
  match t.index? name with
  | some i => (i, t)
  | none => addTerminal name t

/-- The alternatives of a left side by number. -/
def internAlternatives (alternatives : List (List String)) : StateM SymbolTable (List (List Nat)) :=
  alternatives.mapM (·.mapM intern)

/-- Gives the non-terminal with the number `i` its productions. -/
def setProductions (t : SymbolTable) (i : Nat) (productions : List (List Nat)) : SymbolTable :=
  match t.entries[i]? with
  | some (.nonTerminal index nt) =>
    { t with entries := t.entries.set i (.nonTerminal index ⟨nt.name, productions⟩) }
  | _ => t

/-- Reads the alternatives of one non-terminal after the other. -/
def fill : List (Nat × List (List String)) → SymbolTable → SymbolTable
  | [], t => t
  | (i, alternatives) :: rest, t =>
    let (productions, t) := internAlternatives alternatives t
    fill rest (t.setProductions i productions)

end SymbolTable

/-- Rules collected by their left sides, with the place of each left side. -/
structure RuleBuilder where
  lefts : List String
  alternatives : List (List (List String))
  positions : List (String × Nat)
deriving DecidableEq, Repr

namespace RuleBuilder

def empty : RuleBuilder :=
  ⟨[], [], []⟩

/-- Adds a rule. Alternatives for a left side that has come up before are added to those there. -/
def add (b : RuleBuilder) (r : Rule) : RuleBuilder :=
  match b.positions.lookup r.left with
  | some k => { b with alternatives := b.alternatives.modify k (· ++ r.alternatives) }
  | none => ⟨b.lefts ++ [r.left], b.alternatives ++ [r.alternatives],
      (r.left, b.lefts.length) :: b.positions⟩

def ofRules (rules : List Rule) : RuleBuilder :=
  rules.foldl add empty

/-- The table of the symbols, with the number of the start symbol. -/
def build (b : RuleBuilder) : Except GrammarError (SymbolTable × Nat) :=
  let (indexes, t) := b.lefts.mapM SymbolTable.addNonTerminal SymbolTable.empty
  match indexes with
  | [] => .error .noRules
  | first :: _ => .ok (SymbolTable.fill (indexes.zip b.alternatives) t, first)

end RuleBuilder

end Lookahead
