import Lookahead.Log

/-!
# The passes as they run

`settle` says what repeated passes come to. Here a pass puts one number after the other into the
rows of a table, and notes whether any of them was new there (`Progress.put`). Every pass is
announced in the log, and another one follows if anything was new (`SetTable.repeatPasses`).
Nothing is said beforehand about an end : `none` stands for passes that go on forever, and for one
that comes upon a number without a row.

* `Grammar.solveFirst`, `Grammar.solveFollow` : the sets and the log of computing them.
-/

namespace Lookahead

open Grammar (epsilon)

/-- A table that is being filled, and whether anything in it is new. -/
structure Progress where
  table : SetTable
  changed : Bool
deriving DecidableEq, Repr

namespace Progress

/-- Puts the number `k` into row `i`. -/
def put (i : Nat) (s : Progress) (k : Nat) : Progress :=
  ⟨s.table.add i (.single k), s.changed || k ∉ s.table.get i⟩

/-- Puts the members of a set into row `i`, one after the other. -/
def putAll (i : Nat) (s : Progress) (set : IndexSet) : Progress :=
  set.toList.foldl (put i) s

/-- Puts the gain of an item into its row. -/
def addGain {α : Type} (row : α → Nat) (gain? : SetTable → α → Option IndexSet) (s : Progress)
    (x : α) : Option Progress := do
  let set ← gain? s.table x
  let _ ← s.table.get? (row x)
  return s.putAll (row x) set

end Progress

/-- One pass over the items in order. -/
def SetTable.round {α : Type} (t : SetTable) (row : α → Nat)
    (gain? : SetTable → α → Option IndexSet) (items : List α) : Option Progress :=
  items.foldlM (Progress.addGain row gain?) ⟨t, false⟩

/-- Carries out passes, the next of which has the number `i`, until one changes nothing. -/
def SetTable.repeatPasses (round : SetTable → Option Progress) (event : Nat → Event) (i : Nat)
    (log : List Event) (t : SetTable) : Option (SetTable × List Event) :=
  match round t with
  | none => none
  | some s =>
    if s.changed then s.table |>.repeatPasses round event (i + 1) (log ++ [event i])
    else some (s.table, log ++ [event i])
partial_fixpoint

namespace Grammar

variable (g : Grammar)

/-- What an occurrence contributes to the set of its symbol, unless it comes upon a number that
has no row. -/
def followAt? (first follow : SetTable) (o : Occurrence) : Option IndexSet := do
  let ahead ← first.firstOf? o.rest
  if epsilon ∈ ahead then
    let behind ← follow.get? o.left
    return ahead.erase epsilon ∪ behind
  else return ahead

/-- A pass over the productions. -/
def firstRound (t : SetTable) : Option Progress :=
  t.round Production.left (fun t p => t.firstOf? p.right) g.productions

/-- A pass over the occurrences of non-terminals. -/
def followRound (first t : SetTable) : Option Progress :=
  t.round Occurrence.symbol (followAt? first) g.occurrences

/-- The FIRST sets with the log of computing them. -/
def solveFirst : Option (SetTable × List Event) :=
  g.firstStart.repeatPasses g.firstRound .firstPass 1 [.firstSets]

/-- The FOLLOW sets with the log of computing them. -/
def solveFollow (first : SetTable) : Option (SetTable × List Event) :=
  g.followStart.repeatPasses (g.followRound first) .followPass 1 [.followSets]

end Grammar

end Lookahead
