import Lookahead.Proofs.LeftCorner.Cycle
import Lookahead.Proofs.Sets.First

/-!
# Cycles among left corners and left recursion

A cycle among left corners is left recursion : every step of it puts a left corner in front
of the derived string (`derivesProperly_of_transGen`). The converse needs that nothing in
front can vanish, as a symbol behind others that vanish is no left corner. If no production
with two or more symbols starts with a symbol that can vanish (`Grammar.SolidFronts`), then
the front of every string that a non-terminal derives is reached from it along left corners
(`CornerLed.of_expands`), and left recursion is a cycle.

* `leftRecursion?_sound_and_solid_complete` : a report is about left recursion, and without
  one there is none, unless behind a symbol that can vanish.
-/

namespace Lookahead

open Relation

namespace Grammar

variable {g : Grammar} {a i j : Nat} {s u : List Nat}

/-! ## Cycles are left recursion -/

theorem DerivesProperly.tail (h : g.DerivesProperly s u) {v : List Nat} (last : g.Expands u v) :
    g.DerivesProperly s v := by
  obtain ⟨t, first, rest⟩ := h
  exact ⟨t, first, rest.tail last⟩

theorem expands_of_leftEdge (h : g.LeftEdge i j) : ∃ rest, g.Expands [i] (j :: rest) := by
  obtain ⟨hj, p, hp, rfl, hhead⟩ := leftEdge_iff.mp h
  obtain ⟨rest, hright⟩ := List.head?_eq_some_iff.mp hhead
  refine ⟨unmarked rest, ?_⟩
  have := Expands.intro [] [] hp
  rwa [hright, unmarked_cons_of_ne hj.ne_epsilon, List.nil_append, List.append_nil] at this

theorem derivesProperly_of_transGen (h : TransGen g.LeftEdge i j) :
    ∃ rest, g.DerivesProperly [i] (j :: rest) := by
  induction h with
  | single hedge =>
    obtain ⟨rest, hrest⟩ := expands_of_leftEdge hedge
    exact ⟨rest, _, hrest, .refl _⟩
  | tail _ hedge ih =>
    obtain ⟨rest, ih⟩ := ih
    obtain ⟨front, hfront⟩ := expands_of_leftEdge hedge
    have := hfront.in_context [] rest
    exact ⟨front ++ rest, ih.tail this⟩

/-! ## Left recursion behind solid fronts is a cycle -/

/-- No production with two or more symbols starts with a symbol that can vanish. -/
def SolidFronts (g : Grammar) : Prop :=
  ∀ p ∈ g.productions, 2 ≤ p.right.length → ∀ i, p.right.head? = some i → ¬g.first.IsNullable i

/-- The symbol in front of the string is reached from `a` along left corners, if it is a
non-terminal, and it cannot vanish, if anything stands behind it. -/
def CornerLed (g : Grammar) (a : Nat) (s : List Nat) : Prop :=
  ∀ j back, s = j :: back →
    (g.IsNonTerminal j → TransGen g.LeftEdge a j) ∧ (back ≠ [] → ¬g.first.IsNullable j)

theorem isNullable_left {p : Production} (hp : p ∈ g.productions)
    (h : epsilon ∈ g.first.firstOf (unmarked p.right)) : g.first.IsNullable p.left := by
  rw [SetTable.firstOf_unmarked g.get_first_epsilon] at h
  exact firstOf_right_subset hp _ h

theorem isNullable_first_epsilon (g : Grammar) : g.first.IsNullable epsilon := by
  rw [SetTable.IsNullable, get_first_epsilon]
  exact IndexSet.mem_single.mpr rfl

/-- With solid fronts, a marker in front of a right side stands there alone. -/
theorem SolidFronts.right_eq (h : g.SolidFronts) {p : Production} (hp : p ∈ g.productions)
    {back : List Nat} (hright : unmarked p.right = j :: back) :
    ∃ rest, p.right = j :: rest ∧ unmarked rest = back := by
  cases hr : p.right with
  | nil => simp [hr] at hright
  | cons i rest =>
    by_cases hi : i = epsilon
    · subst hi
      cases rest with
      | nil => simp [hr] at hright
      | cons k rest =>
        exact absurd g.isNullable_first_epsilon (h p hp (by simp [hr]) epsilon (by simp [hr]))
    · rw [hr, unmarked_cons_of_ne hi] at hright
      obtain ⟨rfl, rfl⟩ := List.cons.inj hright
      exact ⟨rest, rfl, rfl⟩

theorem SolidFronts.cornerLed_right (h : g.SolidFronts) {p : Production}
    (hp : p ∈ g.productions) : g.CornerLed p.left (unmarked p.right) := by
  intro j back hright
  obtain ⟨rest, hr, rfl⟩ := h.right_eq hp hright
  refine ⟨fun hj => .single (leftEdge_iff.mpr ⟨hj, p, hp, rfl, by simp [hr]⟩), fun hback => ?_⟩
  refine h p hp ?_ j (by simp [hr])
  cases rest with
  | nil => exact absurd rfl hback
  | cons k rest => simp [hr]

theorem CornerLed.of_expands (h : g.SolidFronts) (hs : g.CornerLed a s) (hsu : g.Expands s u) :
    g.CornerLed a u := by
  cases hsu with
  | @intro front back p hp =>
    intro j rest hu
    cases front with
    | cons i front =>
      -- the front of the string stays
      obtain ⟨rfl, -⟩ := List.cons.inj hu
      obtain ⟨hway, hsolid⟩ := hs i (front ++ p.left :: back) rfl
      exact ⟨hway, fun _ => hsolid (by simp)⟩
    | nil =>
      obtain ⟨hway, hsolid⟩ := hs p.left back rfl
      cases hright : unmarked p.right with
      | nil =>
        -- the front of the string vanishes, so nothing was behind it
        have hnull : g.first.IsNullable p.left := by
          refine isNullable_left hp ?_
          rw [hright]
          exact IndexSet.mem_single.mpr rfl
        have hback : back = [] := by
          by_contra hne
          exact hsolid hne hnull
        simp [hright, hback] at hu
      | cons i more =>
        rw [hright] at hu
        obtain ⟨rfl, rfl⟩ := List.cons.inj hu
        obtain ⟨hcorner, hmore⟩ := h.cornerLed_right hp i more hright
        refine ⟨fun hi => (hway (g.isNonTerminal_of_mem_productions hp)).trans (hcorner hi), ?_⟩
        intro hne hnull
        cases more with
        | cons k more => exact hmore (List.cons_ne_nil k more) hnull
        | nil =>
          refine hsolid (by simpa using hne) (isNullable_left hp ?_)
          rw [hright]
          exact SetTable.mem_firstOf_singleton.mpr hnull

theorem CornerLed.of_derives (h : g.SolidFronts) (hs : g.CornerLed a s) (hsu : g.Derives s u) :
    g.CornerLed a u := by
  induction hsu with
  | refl => exact hs
  | head first _ ih => exact ih (hs.of_expands h first)

theorem exists_production_of_expands_singleton (h : g.Expands [i] s) :
    ∃ p ∈ g.productions, p.left = i ∧ s = unmarked p.right := by
  generalize hi : [i] = t at h
  cases h with
  | @intro front back p hp =>
    obtain ⟨rfl, hi⟩ := (List.append_eq_singleton_iff.mp hi.symm).resolve_right (by simp)
    obtain ⟨rfl, rfl⟩ := List.cons.inj hi
    exact ⟨p, hp, rfl, by simp⟩

theorem SolidFronts.transGen_of_isLeftRecursive (h : g.SolidFronts) (hi : g.IsLeftRecursive i) :
    TransGen g.LeftEdge i i := by
  obtain ⟨rest, s, first, hs⟩ := hi
  obtain ⟨p, hp, rfl, rfl⟩ := exists_production_of_expands_singleton first
  exact (((h.cornerLed_right hp).of_derives h hs) _ _ rfl).1 (g.isNonTerminal_of_mem_productions hp)

/-! ## What the report means -/

/-- The reported non-terminal is left recursive. If nothing is reported, and no production
with two or more symbols starts with a symbol that can vanish, no non-terminal is left
recursive. So a grammar that is analyzed and has left recursion has a production of two or
more symbols whose first symbol can vanish. -/
theorem leftRecursion?_sound_and_solid_complete {rules : List Rule} (h : ofRules rules = .ok g) :
    (∀ r, g.leftRecursion? = some r →
      ∃ i, g.IsNonTerminal i ∧ g.indexOf? r.nonTerminal = some i ∧ g.IsLeftRecursive i) ∧
    (g.leftRecursion? = none →
      (∀ p ∈ g.productions, 2 ≤ p.right.length →
        ∀ i, p.right.head? = some i → ¬g.first.IsNullable i) →
      ∀ i, ¬g.IsLeftRecursive i) ∧
    ∀ a i, g.analyze = .ok a → g.IsLeftRecursive i →
      ∃ p ∈ g.productions, 2 ≤ p.right.length ∧
        ∃ j, p.right.head? = some j ∧ a.first.IsNullable j := by
  have hg := wellFormed_of_ofRules h
  have hcomplete : g.leftRecursion? = none → g.SolidFronts → ∀ i, ¬g.IsLeftRecursive i :=
    fun hnone hsolid i hi =>
      leftRecursion?_eq_none_iff.mp hnone i (hsolid.transGen_of_isLeftRecursive hi)
  refine ⟨fun r hr => ?_, hcomplete, fun a i ha hi => ?_⟩
  · obtain ⟨i, cycle, hn, hc, rfl, -⟩ := exists_leftCycle?_of_leftRecursion? hr
    refine ⟨i, hn, hg.indexOf?_name hn.1 hn.lt_symbolCount, ?_⟩
    exact derivesProperly_of_transGen ((leftCycle?_isSome_iff hn).mp (by simp [hc]))
  · obtain ⟨hnone, rfl⟩ := g.analyze_eq_ok_iff.mp ha
    by_contra hno
    refine hcomplete hnone (fun p hp hlen j hj hnull => hno ?_) i hi
    exact ⟨p, hp, hlen, j, hj, hnull⟩

/-- Rules without left recursion in which a symbol that can vanish never comes first. -/
def sumRules : List Rule :=
  [⟨"E", [["T", "X"]]⟩, ⟨"X", [["+", "T", "X"], ["ε"]]⟩, ⟨"T", [["int"], ["(", "E", ")"]]⟩]

/-- The grammar of `sumRules`. -/
def sumGrammar : Grammar :=
  ⟨[⟨"E", [[4, 3]]⟩, ⟨"X", [[5, 4, 3], [0]]⟩, ⟨"T", [[6], [7, 2, 8]]⟩], ["+", "int", "(", ")"]⟩

theorem leftRecursion?_sumGrammar : sumGrammar.leftRecursion? = none := by
  cbv

/-- `B` of the one grammar is left recursive, and no symbol of the other. -/
theorem leftRecursion?_sound_and_solid_complete_sum : ofRules cycleRules = .ok cycleGrammar ∧
    (∃ i, cycleGrammar.indexOf? "B" = some i ∧ cycleGrammar.IsLeftRecursive i) ∧
    ofRules sumRules = .ok sumGrammar ∧ ∀ i, ¬sumGrammar.IsLeftRecursive i := by
  have hcycle : ofRules cycleRules = .ok cycleGrammar := rfl
  have hsum : ofRules sumRules = .ok sumGrammar := rfl
  have hsolid : ∀ p ∈ sumGrammar.productions, 2 ≤ p.right.length →
      ∀ i ∈ p.right.head?, ¬sumGrammar.first.IsNullable i := by
    decide +kernel
  obtain ⟨i, -, hname, hi⟩ :=
    (leftRecursion?_sound_and_solid_complete hcycle).1 _ leftRecursion?_cycleGrammar
  refine ⟨hcycle, ⟨i, hname, hi⟩, hsum, ?_⟩
  exact (leftRecursion?_sound_and_solid_complete hsum).2.1 leftRecursion?_sumGrammar hsolid

end Grammar

end Lookahead
