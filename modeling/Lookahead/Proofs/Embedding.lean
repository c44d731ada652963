import Lookahead.Proofs.LeftCorner.Cycle
import Lookahead.Proofs.Sets.Follow

/-!
# Grammars inside others

A map of numbers embeds a grammar in another (`Grammar.Embeds`) if it keeps what the numbers stand
for and takes productions to productions. Then it takes derivations to derivations, whatever other
productions there are. So what comes first or next in the one grammar does so in the other
(`Embeds.mem_get_first`, `Embeds.mem_get_follow`), where only the end mark needs to know about the
start symbol, and a cycle among left corners stays one (`Embeds.isSome_leftRecursion?`).
-/

namespace Lookahead

open Relation

/-- The production by other numbers. -/
def Production.map (f : Nat → Nat) (p : Production) : Production :=
  ⟨f p.left, p.right.map f⟩

namespace Grammar

variable {g g' : Grammar} {f : Nat → Nat} {i j k : Nat} {s u : List Nat}

/-- The numbers of the one grammar are taken to numbers of the other that stand for symbols of the
same kind, and its productions to productions of the other. -/
structure Embeds (g g' : Grammar) (f : Nat → Nat) : Prop where
  epsilon : f epsilon = epsilon
  endMark : f endMark = endMark
  isNonTerminal : ∀ i, g.IsNonTerminal i → g'.IsNonTerminal (f i)
  isTerminal : ∀ i, g.IsTerminal i → g'.IsTerminal (f i)
  mem_productions : ∀ p ∈ g.productions, p.map f ∈ g'.productions

namespace Embeds

variable (h : Embeds g g' f)
include h

/-! ## Numbers -/

theorem ne_epsilon (hi : i < g.symbolCount) (hne : i ≠ Grammar.epsilon) :
    f i ≠ Grammar.epsilon := by
  rcases cases_of_lt_symbolCount hi with rfl | rfl | hn | ht
  · exact absurd rfl hne
  · rw [h.endMark]
    decide
  · exact (h.isNonTerminal i hn).ne_epsilon
  · exact (h.isTerminal i ht).ne_epsilon

theorem lt_symbolCount (hi : i < g.symbolCount) : f i < g'.symbolCount := by
  rcases cases_of_lt_symbolCount hi with rfl | rfl | hn | ht
  · rw [h.epsilon]
    exact g'.epsilon_lt_symbolCount
  · rw [h.endMark, symbolCount_eq]
    show 1 < _
    omega
  · exact (h.isNonTerminal i hn).lt_symbolCount
  · exact (h.isTerminal i ht).2

theorem not_isNonTerminal (hi : i < g.symbolCount) (hn : ¬g.IsNonTerminal i) :
    ¬g'.IsNonTerminal (f i) := by
  rcases cases_of_lt_symbolCount hi with rfl | rfl | hn' | ht
  · rw [h.epsilon]
    exact fun hn' => hn'.ne_epsilon rfl
  · rw [h.endMark]
    exact fun hn' => absurd hn'.1 (by decide)
  · exact absurd hn' hn
  · exact (h.isTerminal i ht).not_isNonTerminal

theorem inUse (hs : g.InUse s) : g'.InUse (s.map f) := by
  intro i hi
  obtain ⟨j, hj, rfl⟩ := List.mem_map.mp hi
  exact h.lt_symbolCount (hs j hj)

theorem unmarked_map (hs : g.InUse s) : unmarked (s.map f) = (unmarked s).map f := by
  induction s with
  | nil => rfl
  | cons i s ih =>
    have hs' : g.InUse s := fun j hj => hs j (List.mem_cons_of_mem _ hj)
    by_cases hi : i = Grammar.epsilon
    · subst hi
      rw [List.map_cons, h.epsilon, unmarked_epsilon_cons, unmarked_epsilon_cons, ih hs']
    · rw [List.map_cons, unmarked_cons_of_ne (h.ne_epsilon (hs i List.mem_cons_self) hi), ih hs',
        unmarked_cons_of_ne hi, List.map_cons]

/-! ## Derivations -/

variable (hg : g.WellFormed)
include hg

theorem expands (hsu : g.Expands s u) : g'.Expands (s.map f) (u.map f) := by
  cases hsu with
  | @intro front back p hp =>
    have := Expands.intro (front.map f) (back.map f) (h.mem_productions p hp)
    rw [Production.map, h.unmarked_map (hg.lt_of_mem_right p hp)] at this
    simpa only [List.map_append, List.map_cons] using this

theorem derives (hsu : g.Derives s u) : g'.Derives (s.map f) (u.map f) := by
  induction hsu with
  | refl s => exact .refl _
  | head first _ ih => exact .head (h.expands hg first) ih

/-! ## What comes first, and what comes next -/

theorem begins (hs : g.InUse s) (hk : g.Begins s k) : g'.Begins (s.map f) (f k) := by
  rcases hk with ⟨rfl, hd⟩ | ⟨hne, hn, rest, hd⟩
  · rw [h.epsilon, begins_epsilon]
    exact h.derives hg hd
  · have hlt : k < g.symbolCount := hs.of_derives hg hd k List.mem_cons_self
    rw [begins_of_ne (h.ne_epsilon hlt hne)]
    exact ⟨h.not_isNonTerminal hlt hn, rest.map f, h.derives hg hd⟩

theorem follows (hk : g.Follows i k) (hstart : k ≠ Grammar.endMark ∨ f start = start) :
    g'.Follows (f i) (f k) := by
  rcases hk with ⟨rfl, x, hd⟩ | ⟨hne, ht, a, x, y, ha, hd⟩
  · rw [h.endMark, follows_endMark]
    have := h.derives hg hd
    rw [List.map_append, List.map_singleton, List.map_singleton,
      hstart.resolve_left (· rfl)] at this
    exact ⟨x.map f, this⟩
  · have ht' := h.isTerminal k ht
    rw [follows_of_ne ht'.ne_endMark]
    have := h.derives hg hd
    rw [List.map_append, List.map_singleton] at this
    exact ⟨ht', f a, x.map f, y.map f, h.isNonTerminal a ha, this⟩

variable (hg' : g'.WellFormed)
include hg'

/-- FIRST of a symbol is taken into FIRST of its image. -/
theorem mem_get_first (hi : i < g.symbolCount) (hk : k ∈ g.first.get i) :
    f k ∈ g'.first.get (f i) := by
  have hin : g.InUse [i] := by simpa [InUse] using hi
  rw [← SetTable.mem_firstOf_singleton, mem_firstOf_iff_begins hg hin] at hk
  rw [← SetTable.mem_firstOf_singleton, ← List.map_singleton,
    mem_firstOf_iff_begins hg' (h.inUse hin), h.unmarked_map hin]
  exact h.begins hg hin.unmarked hk

/-- FOLLOW of a non-terminal is taken into FOLLOW of its image, but for the end mark, unless the
start symbol is the image of the start symbol. -/
theorem mem_get_follow (hi : g.IsNonTerminal i) (hk : k ∈ (g.follow g.first).get i)
    (hstart : k ≠ Grammar.endMark ∨ f start = start) :
    f k ∈ (g'.follow g'.first).get (f i) := by
  rw [mem_follow_iff_follows hg' (h.isNonTerminal i hi)]
  exact h.follows hg ((mem_follow_iff_follows hg hi).mp hk) hstart

omit hg hg'

/-! ## Left corners -/

theorem leftEdge (hij : g.LeftEdge i j) : g'.LeftEdge (f i) (f j) := by
  obtain ⟨hj, p, hp, rfl, hhead⟩ := leftEdge_iff.mp hij
  refine leftEdge_iff.mpr ⟨h.isNonTerminal j hj, _, h.mem_productions p hp, rfl, ?_⟩
  rw [Production.map, List.head?_map, hhead]
  rfl

/-- Left recursion is found in the other grammar as well. -/
theorem isSome_leftRecursion? (hsome : g.leftRecursion?.isSome) : g'.leftRecursion?.isSome :=
  isSome_leftRecursion?_of_leftEdge (fun _ _ => h.leftEdge) hsome

end Embeds

end Grammar

end Lookahead
