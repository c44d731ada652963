import Lookahead.Derivation
import Lookahead.Proofs.Grammar.WellFormed

/-!
# Strings along a derivation

What a derivation starts with and what its productions bring in is all that it ever shows
(`Derives.forall_mem`). So a string over the numbers in use (`Grammar.InUse`) derives such
strings only.
-/

namespace Lookahead

namespace Grammar

/-- All numbers of the string are in use. -/
def InUse (g : Grammar) (string : List Nat) : Prop :=
  ∀ i ∈ string, i < g.symbolCount

instance (g : Grammar) (string : List Nat) : Decidable (g.InUse string) :=
  inferInstanceAs (Decidable (∀ i ∈ string, i < g.symbolCount))

/-! ## Strings without markers -/

theorem mem_unmarked {i : Nat} {s : List Nat} : i ∈ unmarked s ↔ i ∈ s ∧ i ≠ epsilon := by
  simp [unmarked]

@[simp] theorem unmarked_epsilon_cons (s : List Nat) : unmarked (epsilon :: s) = unmarked s := rfl

theorem unmarked_cons_of_ne {i : Nat} (h : i ≠ epsilon) (s : List Nat) :
    unmarked (i :: s) = i :: unmarked s := by
  simp [unmarked, h]

/-- A symbol that is left when the markers are gone was there before. -/
theorem exists_of_unmarked_eq_append {s front back : List Nat} {i : Nat}
    (h : unmarked s = front ++ i :: back) :
    ∃ x y, s = x ++ i :: y ∧ unmarked x = front ∧ unmarked y = back := by
  obtain ⟨x, z, rfl, hx, hz⟩ := List.filter_eq_append_iff.mp h
  obtain ⟨x', y, rfl, hx', -, hy⟩ := List.filter_eq_cons_iff.mp hz
  refine ⟨x ++ x', y, by simp, ?_, hy⟩
  rw [unmarked_append, show unmarked x = front from hx]
  have : unmarked x' = [] := by simpa [unmarked] using hx'
  rw [this, List.append_nil]

variable {g : Grammar} {s t u : List Nat}

theorem Derives.tail (h : g.Derives s t) (last : g.Expands t u) : g.Derives s u :=
  h.trans last.derives

theorem Derives.forall_mem {P : Nat → Prop} (h : g.Derives s t)
    (hright : ∀ p ∈ g.productions, ∀ i ∈ p.right, P i) (hs : ∀ i ∈ s, P i) : ∀ i ∈ t, P i := by
  induction h with
  | refl => exact hs
  | head first _ ih =>
    obtain ⟨front, back, hp⟩ := first
    refine ih fun i hi => ?_
    simp only [List.mem_append, List.mem_cons] at hs hi
    rcases hi with (hi | hi) | hi
    · exact hs i (Or.inl hi)
    · exact hright _ hp i (mem_unmarked.mp hi).1
    · exact hs i (Or.inr (Or.inr hi))

theorem InUse.append (hs : g.InUse s) (ht : g.InUse t) : g.InUse (s ++ t) :=
  List.forall_mem_append.mpr ⟨hs, ht⟩

theorem InUse.unmarked (h : g.InUse s) : g.InUse (unmarked s) :=
  fun i hi => h i (mem_unmarked.mp hi).1

theorem InUse.of_derives (hg : g.WellFormed) (hs : g.InUse s) (h : g.Derives s t) : g.InUse t :=
  h.forall_mem hg.lt_of_mem_right hs

theorem WellFormed.inUse_of_mem_alternatives (hg : g.WellFormed) {i : Nat}
    (h : s ∈ g.alternatives i) : g.InUse s :=
  hg.lt_of_mem_right ⟨i, s⟩ (g.mem_productions.mpr h)

end Grammar

end Lookahead
