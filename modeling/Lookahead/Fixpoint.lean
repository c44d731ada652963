/-!
# Passes until nothing is gained

`settle pass gap a` applies `pass` to `a` again and again, for as long as a pass makes the gap
smaller. The pass that gains nothing is carried out and counted, as nothing else shows that the
work is done.

* `settle_of_gain`, `settle_of_no_gain` : one pass, then the rest; or one pass and the end.
* `settle_induct` : what `pass` preserves, and the start has, the result has.
* `settle_fixed` : if only a pass that changes nothing gains nothing, a further pass leaves the
  result alone.
-/

namespace Lookahead

/-- Where repeated passes ended, and how many there were. -/
structure Limit (α : Type) where
  value : α
  passes : Nat
deriving Repr

variable {α : Type} (pass : α → α) (gap : α → Nat)

/-- Applies `pass` until the gap stays as it is. -/
def settle (a : α) : Limit α :=
  let next := pass a
  if gap next < gap a then
    let rest := settle next
    ⟨rest.value, rest.passes + 1⟩
  else ⟨next, 1⟩
termination_by gap a

variable {pass gap} {a : α}

theorem settle_of_gain (h : gap (pass a) < gap a) :
    settle pass gap a =
      ⟨(settle pass gap (pass a)).value, (settle pass gap (pass a)).passes + 1⟩ := by
  rw [settle]
  simp [h]

theorem settle_of_no_gain (h : ¬gap (pass a) < gap a) : settle pass gap a = ⟨pass a, 1⟩ := by
  rw [settle]
  simp [h]

theorem settle_induct {P : α → Prop} (hpass : ∀ b, P b → P (pass b)) (ha : P a) :
    P (settle pass gap a).value := by
  induction hn : gap a using Nat.strongRecOn generalizing a with
  | _ n ih =>
    by_cases h : gap (pass a) < gap a
    · rw [settle_of_gain h]
      exact ih _ (hn ▸ h) (hpass a ha) rfl
    · rw [settle_of_no_gain h]
      exact hpass a ha

theorem settle_fixed {P : α → Prop} (hpass : ∀ b, P b → P (pass b))
    (hstop : ∀ b, P b → ¬gap (pass b) < gap b → pass b = b) (ha : P a) :
    pass (settle pass gap a).value = (settle pass gap a).value := by
  induction hn : gap a using Nat.strongRecOn generalizing a with
  | _ n ih =>
    by_cases h : gap (pass a) < gap a
    · rw [settle_of_gain h]
      exact ih _ (hn ▸ h) (hpass a ha) rfl
    · rw [settle_of_no_gain h]
      exact congrArg pass (hstop a ha h)

end Lookahead
