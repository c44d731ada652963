import Lookahead.LeftCorner.Recursion

/-!
# The search as it runs

A trail of `searchFrom` holds the way from the root. Here nothing holds a way : a search keeps the
non-terminals it has visited, and for each of them but the root the alternative that led there
(`Search`). Once an alternative leads back to the root, the way is put together backwards, from
one non-terminal to the one it was reached from (`Search.walkBack`). The alternatives are known by
their places only, and are read once the way is known.

Nothing is said beforehand about an end. In what a search results in, the outer `none` stands for
one that goes on forever, or that comes upon a number or a place where nothing is.

* `Grammar.explore` : the search for a way back over other non-terminals.
* `Grammar.findLeftRecursion` : the report, with the kind of the search that it comes from.
-/

namespace Lookahead

/-- An alternative of a non-terminal, by its place. -/
structure Link where
  left : Nat
  place : Nat
deriving DecidableEq, Repr

/-- A search that is under way, with what it did last in front. -/
structure Search where
  visited : List Nat
  /-- The alternatives that led to non-terminals for the first time. -/
  reachedBy : List (Nat × Link)
  /-- The non-terminals whose alternatives are still to be read. -/
  stack : List Nat
deriving DecidableEq, Repr

namespace Search

def start (root : Nat) : Search :=
  ⟨[root], [], [root]⟩

/-- Notes that the alternative `link` led to the non-terminal `i`. -/
def reach (s : Search) (i : Nat) (link : Link) : Search :=
  ⟨i :: s.visited, (i, link) :: s.reachedBy, i :: s.stack⟩

/-- The alternatives that led to `node`, one after the other, and the chain behind them. -/
def walkBack (s : Search) (node : Nat) (chain : List Link) : Option (List Link) :=
  match s.reachedBy.lookup node with
  | none => some chain
  | some link => s |>.walkBack link.left (link :: chain)
partial_fixpoint

end Search

namespace Grammar

variable (g : Grammar)

/-- Reads alternatives of `current`, the next of which has the place `place`, up to one that leads
back to the root from elsewhere. -/
def scan (root current place : Nat) (s : Search) : List (List Nat) → Option (Search × Option Link)
  | [] => some (s, none)
  | right :: rest =>
    match right.head? with
    | none => scan root current (place + 1) s rest
    | some first =>
      if first = root ∧ current ≠ root then some (s, some ⟨current, place⟩)
      else
        match g.symbol? first with
        | none => none
        | some symbol =>
          if symbol.isNonTerminal ∧ first ∉ s.visited then
            scan root current (place + 1) (s.reach first ⟨current, place⟩) rest
          else scan root current (place + 1) s rest

/-- The alternatives that lead from the root over other non-terminals back to it. -/
def explore (g : Grammar) (root : Nat) (s : Search) : Option (Option (List Link)) :=
  match s.stack with
  | [] => some none
  | current :: stack =>
    match g.scan root current 0 { s with stack } (g.alternatives current) with
    | none => none
    | some (s, some link) => (s.walkBack current [link]).map some
    | some (s, none) => g |>.explore root s
partial_fixpoint

/-- The first alternative of `root` that starts with `root`. -/
def directLink? (root : Nat) : Option Link :=
  ((g.alternatives root).findIdx? (·.head? = some root)).map (Link.mk root)

/-- The alternatives that lead from the root back to it, and how they were found. -/
def linkedCycle? (root : Nat) : Option (Option (LeftRecursion.Kind × List Link)) :=
  match g.directLink? root with
  | some link => some (some (.direct, [link]))
  | none => (g.explore root (.start root)).map (·.map (.indirect, ·))

/-- The alternative by name. Nothing comes of it if its left side is no non-terminal. -/
def spellLink? (link : Link) : Option (Option (String × List String)) :=
  match g.nonTerminal? link.left with
  | none => some none
  | some nt => do
    let right ← nt.productions[link.place]?
    let names ← g.spell? right
    return some (nt.name, names)

/-- The report on the alternatives that lead from the root back to it. -/
def reportLinks? (root : Nat) (kind : LeftRecursion.Kind) (links : List Link) :
    Option (LeftRecursion.Kind × LeftRecursion) := do
  let entries ← links.mapM g.spellLink?
  let name ← g.name? root
  return (kind, ⟨name, entries.filterMap id⟩)

/-- The report on the first of the given non-terminals that has a way back. -/
def findLeftRecursionFrom : List Nat → Option (Option (LeftRecursion.Kind × LeftRecursion))
  | [] => some none
  | root :: rest =>
    match g.linkedCycle? root with
    | none => none
    | some none => findLeftRecursionFrom rest
    | some (some (kind, links)) => (g.reportLinks? root kind links).map some

/-- The report on the first non-terminal that has a way back. -/
def findLeftRecursion : Option (Option (LeftRecursion.Kind × LeftRecursion)) :=
  g.findLeftRecursionFrom g.nonTerminalIndexes

end Grammar

/-- The right side of the first production of the chain. -/
def LeftRecursion.production? (r : LeftRecursion) : Option (List String) :=
  r.chain.head?.map Prod.snd

end Lookahead
