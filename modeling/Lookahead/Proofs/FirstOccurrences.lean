import Mathlib.Data.List.Induction
import Mathlib.Data.List.Nodup

/-!
# First occurrences

What is listed once and in the order of first occurrence : left sides, terminals, left
corners. The operation is `List.eraseDups`. One more member is listed behind the others
if it is new (`eraseDups_concat_of_mem`, `eraseDups_concat_of_not_mem`). By induction from the
end, the result has no repetitions (`nodup_eraseDups`), which the operation leaves alone
(`eraseDups_of_nodup`), and selecting and renaming can be done before or after it
(`filter_eraseDups`, `eraseDups_map_of_injOn`). A member can come twice in a row without a change
(`eraseDups_append_cons_cons`). The place of a first occurrence is `List.idxOf?`.
-/

namespace Lookahead

variable {α : Type} [BEq α] [LawfulBEq α]

theorem eraseDups_concat_of_mem {xs : List α} {x : α} (h : x ∈ xs) :
    (xs ++ [x]).eraseDups = xs.eraseDups := by
  have hnone : [x].removeAll xs = [] := by
    rw [List.removeAll, List.filter_cons_of_neg (by simpa using h), List.filter_nil]
  rw [List.eraseDups_append, hnone, List.eraseDups_nil, List.append_nil]

theorem eraseDups_concat_of_not_mem {xs : List α} {x : α} (h : x ∉ xs) :
    (xs ++ [x]).eraseDups = xs.eraseDups ++ [x] := by
  have hkeep : [x].removeAll xs = [x] := by
    rw [List.removeAll, List.filter_cons_of_pos (by simpa using h), List.filter_nil]
  rw [List.eraseDups_append, hkeep, List.eraseDups_cons, List.filter_nil, List.eraseDups_nil]

/-- The first occurrences of the members of a list are distinct. -/
theorem nodup_eraseDups (xs : List α) : xs.eraseDups.Nodup := by
  induction xs using List.reverseRecOn with
  | nil => exact List.nodup_nil
  | append_singleton xs x ih =>
    by_cases hx : x ∈ xs
    · rwa [eraseDups_concat_of_mem hx]
    · rw [eraseDups_concat_of_not_mem hx]
      exact ih.append (List.nodup_singleton x) (by simpa [List.mem_eraseDups] using hx)

theorem eraseDups_of_nodup {xs : List α} (h : xs.Nodup) : xs.eraseDups = xs := by
  induction xs using List.reverseRecOn with
  | nil => rfl
  | append_singleton xs x ih =>
    have hx : x ∉ xs := fun hmem => List.disjoint_of_nodup_append h hmem (.head _)
    rw [eraseDups_concat_of_not_mem hx, ih h.of_append_left]

/-- What comes twice in a row is listed as if it came once. -/
theorem eraseDups_append_cons_cons (xs ys : List α) (x : α) :
    (xs ++ x :: x :: ys).eraseDups = (xs ++ x :: ys).eraseDups := by
  rw [List.eraseDups_append, List.eraseDups_append, List.removeAll, List.removeAll]
  by_cases hx : x ∈ xs
  · have hdrop (zs : List α) : (x :: zs).filter (!xs.contains ·) = zs.filter (!xs.contains ·) :=
      List.filter_cons_of_neg (by simpa using hx)
    rw [hdrop, hdrop]
  · have hkeep (zs : List α) :
        (x :: zs).filter (!xs.contains ·) = x :: zs.filter (!xs.contains ·) :=
      List.filter_cons_of_pos (by simpa using hx)
    rw [hkeep, hkeep, List.eraseDups_cons, List.eraseDups_cons, List.filter_cons_of_neg (by simp)]

/-- Renaming without collisions keeps the first occurrences. -/
theorem eraseDups_map_of_injOn {β : Type} [BEq β] [LawfulBEq β] {f : α → β} {xs : List α}
    (h : ∀ x ∈ xs, ∀ y ∈ xs, f x = f y → x = y) :
    (xs.map f).eraseDups = xs.eraseDups.map f := by
  induction xs using List.reverseRecOn with
  | nil => rfl
  | append_singleton xs x ih =>
    have hrest := ih fun y hy z hz => h y (List.mem_append_left _ hy) z (List.mem_append_left _ hz)
    rw [List.map_append, List.map_singleton]
    by_cases hx : x ∈ xs
    · rw [eraseDups_concat_of_mem hx, eraseDups_concat_of_mem (List.mem_map_of_mem hx), hrest]
    · have hfx : f x ∉ xs.map f := fun hmem => by
        obtain ⟨y, hy, heq⟩ := List.mem_map.mp hmem
        obtain rfl := h y (List.mem_append_left _ hy) x (by simp) heq
        exact hx hy
      rw [eraseDups_concat_of_not_mem hx, eraseDups_concat_of_not_mem hfx, hrest, List.map_append,
        List.map_singleton]

/-- It does not matter whether one selects before or after listing first occurrences. -/
theorem filter_eraseDups (p : α → Bool) (xs : List α) :
    xs.eraseDups.filter p = (xs.filter p).eraseDups := by
  induction xs using List.reverseRecOn with
  | nil => rfl
  | append_singleton xs x ih =>
    rw [List.filter_append]
    by_cases hx : x ∈ xs <;> by_cases hp : p x = true
    · rw [eraseDups_concat_of_mem hx, ih, List.filter_cons_of_pos hp, List.filter_nil,
        eraseDups_concat_of_mem (List.mem_filter.mpr ⟨hx, hp⟩)]
    · rw [eraseDups_concat_of_mem hx, ih, List.filter_cons_of_neg hp, List.filter_nil,
        List.append_nil]
    · rw [eraseDups_concat_of_not_mem hx, List.filter_append, ih, List.filter_cons_of_pos hp,
        List.filter_nil, eraseDups_concat_of_not_mem fun h => hx (List.mem_filter.mp h).1]
    · rw [eraseDups_concat_of_not_mem hx, List.filter_append, ih, List.filter_cons_of_neg hp,
        List.filter_nil, List.append_nil, List.append_nil]

theorem exists_idxOf?_eq_some {xs : List α} {x : α} (h : x ∈ xs) : ∃ k, xs.idxOf? x = some k :=
  Option.isSome_iff_exists.mp (List.isSome_idxOf?.mpr h)

/-- A member of a list without repetitions occurs where it stands. -/
theorem idxOf?_getElem_of_nodup {xs : List α} (h : xs.Nodup) {k : Nat} (hk : k < xs.length) :
    xs.idxOf? xs[k] = some k := by
  refine List.idxOf?_eq_some_iff.mpr ⟨hk, rfl, fun j hj heq => ?_⟩
  have := (List.Nodup.getElem_inj_iff h).mp heq
  omega

end Lookahead
