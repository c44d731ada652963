/-!
# Ranges of code points

A character class of Unicode is listed as ranges of code points, and `inRanges` looks a character
up in such a list.

`inRanges_iff` : a character is found exactly if some range of the list holds its code point.
-/

namespace Lookahead.Text

/-- The code points from `first` to `last`, both included. -/
structure CodeRange where
  first : Nat
  last : Nat
deriving Repr, DecidableEq

/-- Whether the range holds the code point of `c`. -/
def CodeRange.holds (r : CodeRange) (c : Char) : Bool :=
  r.first ≤ c.toNat && c.toNat ≤ r.last

/-- Whether one of the ranges holds the code point of `c`. -/
def inRanges (ranges : List CodeRange) (c : Char) : Bool :=
  ranges.any (·.holds c)

theorem inRanges_iff {ranges : List CodeRange} {c : Char} :
    inRanges ranges c = true ↔ ∃ r ∈ ranges, r.first ≤ c.toNat ∧ c.toNat ≤ r.last := by
  simp [inRanges, CodeRange.holds]

/-- Lists without a code point in common have no character in common. -/
theorem inRanges_eq_false_of_apart {ranges ranges' : List CodeRange} {c : Char}
    (h : ∀ r ∈ ranges, ∀ r' ∈ ranges', r.last < r'.first ∨ r'.last < r.first)
    (hc : inRanges ranges c = true) : inRanges ranges' c = false := by
  obtain ⟨r, hr, hfirst, hlast⟩ := inRanges_iff.mp hc
  refine Bool.eq_false_iff.mpr fun hc' => ?_
  obtain ⟨r', hr', hfirst', hlast'⟩ := inRanges_iff.mp hc'
  have := h r hr r' hr'
  omega

end Lookahead.Text
