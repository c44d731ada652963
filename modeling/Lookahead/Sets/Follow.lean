import Lookahead.Sets.First

/-!
# FOLLOW

FOLLOW of a non-terminal holds the terminals that can stand right behind it in what some
non-terminal derives, and the end mark if it can stand at the end of what the start symbol
derives. Only non-terminals have members.

* `Occurrence` : a non-terminal on the right side of a production, with what comes after it.
* `Grammar.follow` : the FOLLOW set of every symbol. A pass reads the occurrences in order. What
  may come first in the rest of the right side follows the occurrence, and if the rest can vanish,
  so does all that follows the left side.
-/

namespace Lookahead

/-- A non-terminal `symbol` on the right side of a production for `left`, with `rest` behind it. -/
structure Occurrence where
  left : Nat
  symbol : Nat
  rest : List Nat
deriving DecidableEq, Repr

namespace Grammar

variable (g : Grammar)

/-- The occurrences of non-terminals in a string on the right side of `left`, in order. -/
def occurrencesIn (left : Nat) : List Nat → List Occurrence
  | [] => []
  | i :: rest =>
    if g.IsNonTerminal i then ⟨left, i, rest⟩ :: occurrencesIn left rest
    else occurrencesIn left rest

/-- The occurrences of non-terminals in all productions, in order. -/
def occurrences : List Occurrence :=
  g.productions.flatMap fun p => g.occurrencesIn p.left p.right

/-- Before the first pass, the end mark follows the start symbol. -/
def followStart : SetTable :=
  .tabulate g.symbolCount fun i => if i = start then .single endMark else ∅

/-- What an occurrence contributes to the set of its symbol. -/
def followAt (first follow : SetTable) (o : Occurrence) : IndexSet :=
  let ahead := first.firstOf o.rest
  if epsilon ∈ ahead then ahead.erase epsilon ∪ follow.get o.left else ahead

/-- Adds to the set of each occurrence what follows it there, one occurrence after the other. -/
def followPass (first t : SetTable) : SetTable :=
  g.occurrences.foldl (fun t o => t.add o.symbol (followAt first t o)) t

/-- The FOLLOW sets with the number of passes that computed them. -/
def followLimit (first : SetTable) : Limit SetTable :=
  settle (g.followPass first) SetTable.gap g.followStart

/-- The FOLLOW set of every symbol. -/
def follow (first : SetTable) : SetTable :=
  (g.followLimit first).value

theorem mem_occurrencesIn {left : Nat} {string : List Nat} {o : Occurrence} :
    o ∈ g.occurrencesIn left string ↔
      o.left = left ∧ g.IsNonTerminal o.symbol ∧ ∃ front, string = front ++ o.symbol :: o.rest := by
  induction string with
  | nil => simp [occurrencesIn]
  | cons i rest ih =>
    have hcons : (∃ front, i :: rest = front ++ o.symbol :: o.rest) ↔
        (i = o.symbol ∧ rest = o.rest) ∨ ∃ front, rest = front ++ o.symbol :: o.rest := by
      constructor
      · rintro ⟨front, h⟩
        cases front with
        | nil => exact .inl (by simpa using h)
        | cons j front => exact .inr ⟨front, by simp at h; exact h.2⟩
      · rintro (⟨rfl, rfl⟩ | ⟨front, rfl⟩)
        · exact ⟨[], rfl⟩
        · exact ⟨i :: front, rfl⟩
    rw [hcons, occurrencesIn]
    split
    · rw [List.mem_cons, ih]
      constructor
      · rintro (rfl | ⟨h1, h2, h3⟩)
        · exact ⟨rfl, by assumption, .inl ⟨rfl, rfl⟩⟩
        · exact ⟨h1, h2, .inr h3⟩
      · rintro ⟨h1, h2, ⟨h3, h4⟩ | h3⟩
        · left
          cases o
          simp_all
        · exact .inr ⟨h1, h2, h3⟩
    · next hi =>
      rw [ih]
      constructor
      · rintro ⟨h1, h2, h3⟩
        exact ⟨h1, h2, .inr h3⟩
      · rintro ⟨h1, h2, ⟨h3, _⟩ | h3⟩
        · exact absurd (h3 ▸ h2) hi
        · exact ⟨h1, h2, h3⟩

theorem mem_occurrences {o : Occurrence} :
    o ∈ g.occurrences ↔ g.IsNonTerminal o.symbol ∧
      ∃ front, ⟨o.left, front ++ o.symbol :: o.rest⟩ ∈ g.productions := by
  simp only [occurrences, List.mem_flatMap, mem_occurrencesIn]
  constructor
  · rintro ⟨⟨left, right⟩, hp, h1, h2, front, h3⟩
    simp only at h1 h3
    exact ⟨h2, front, by rwa [h1, ← h3]⟩
  · rintro ⟨h, front, hp⟩
    exact ⟨_, hp, rfl, h, front, rfl⟩

end Grammar

end Lookahead
