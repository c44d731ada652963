import Lookahead.Analysis

/-!
# The log

What happens on the way from rules to sets, as a list of events. The events follow from the
grammar and from the number of passes its sets took, so they are listed here and nowhere recorded.

* `Grammar.loadEvents` : names that look forgotten, and the size of the grammar.
* `Grammar.analysisEvents` : the search for left recursion and, if it finds none, the passes.
-/

namespace Lookahead

/-- How much a reader of the log has to care, most first. -/
inductive Level
  | warn
  | info
  | debug
  | trace
deriving DecidableEq, Repr

namespace Level

/-- The place of a level in the order of detail. -/
def detail : Level → Nat
  | warn => 0
  | info => 1
  | debug => 2
  | trace => 3

def name : Level → String
  | warn => "WARN"
  | info => "INFO"
  | debug => "DEBUG"
  | trace => "TRACE"

end Level

/-- A line of the log. -/
inductive Event
  | linesRead (count : Nat)
  | undefinedSymbol (name : String)
  | grammarLoaded (productions nonTerminals terminals : Nat)
  | leftRecursionCheck
  | firstSets
  | firstPass (number : Nat)
  | followSets
  | followPass (number : Nat)
deriving DecidableEq, Repr

namespace Event

def level : Event → Level
  | undefinedSymbol _ => .warn
  | grammarLoaded .. => .info
  | linesRead _ | leftRecursionCheck | firstSets | followSets => .debug
  | firstPass _ | followPass _ => .trace

def message : Event → String
  | linesRead count => "Read " ++ toString count ++ " grammar lines"
  | undefinedSymbol name =>
    "Symbol '" ++ name ++ "' is used but not defined, treating it as a terminal"
  | grammarLoaded productions nonTerminals terminals =>
    "Grammar has " ++ toString productions ++ " productions, " ++ toString nonTerminals
      ++ " non-terminals, " ++ toString terminals ++ " terminals"
  | leftRecursionCheck => "Checking for left recursion"
  | firstSets => "Computing first sets"
  | firstPass number => "First set pass " ++ toString number
  | followSets => "Computing follow sets"
  | followPass number => "Follow set pass " ++ toString number

end Event

/-- The events for `count` passes, counted from 1. -/
def passEvents (event : Nat → Event) (count : Nat) : List Event :=
  (List.range' 1 count).map event

/-- The events of computing the sets. -/
def Analysis.events (a : Analysis) : List Event :=
  .firstSets :: passEvents .firstPass a.firstPasses
    ++ .followSets :: passEvents .followPass a.followPasses

namespace Grammar

variable (g : Grammar)

/-- The events of putting the grammar together. -/
def loadEvents : List Event :=
  g.suspects.map .undefinedSymbol
    ++ [.grammarLoaded g.productions.length g.nonTerminals.length g.terminals.length]

/-- The events of analyzing the grammar. -/
def analysisEvents : List Event :=
  .leftRecursionCheck ::
    match g.analyze with
    | .error _ => []
    | .ok a => a.events

/-- All events from the rules to the outcome of the analysis. -/
def events : List Event :=
  g.loadEvents ++ g.analysisEvents

end Grammar

end Lookahead
