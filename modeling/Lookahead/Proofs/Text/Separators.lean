import Mathlib.Data.List.Basic
import Lookahead.Proofs.Text.Joined

/-!
# What a joined text says about its parts

Texts that are joined by a separator are told apart if no part can be taken for a separator. With a
single character as a mark, it is enough that no part holds the mark (`eq_of_intercalate_eq`). A
separator may have more around its mark (`eq_of_intercalate_around_eq`), or two marks with a token
between them. In the second case the text is cut at the marks first, and no part may have the token
among its pieces (`eq_of_intercalate_token_eq`).
-/

namespace Lookahead.Text

section Separators

variable {α : Type} {mark : α} {token front back piece : List α} {xs ys : List (List α)}

/-- What stands around the marks of the separators belongs to the parts, if it is put around the
text as well. -/
theorem append_intercalate_append (mark : α) (front back : List α) (h : xs ≠ []) :
    back ++ (front ++ mark :: back).intercalate xs ++ front =
      [mark].intercalate (xs.map fun x => back ++ x ++ front) := by
  induction xs with
  | nil => exact absurd rfl h
  | cons x xs ih =>
    cases xs with
    | nil => simp
    | cons y xs =>
      have hrest := ih (List.cons_ne_nil y xs)
      rw [List.map_cons] at hrest
      rw [List.intercalate_cons_cons, List.map_cons, List.map_cons, List.intercalate_cons_cons,
        ← hrest]
      simp

theorem notMem_intercalate {sep : List α} (hsep : mark ∉ sep) (hx : ∀ x ∈ xs, mark ∉ x) :
    mark ∉ sep.intercalate xs := by
  intro hmem
  rcases mem_intercalate hmem with hmem | ⟨x, hxs, hmem⟩
  · exact hsep hmem
  · exact hx x hxs hmem

/-- Parts that are not empty leave something behind. -/
theorem intercalate_eq_nil_iff {sep : List α} (hx : [] ∉ xs) : sep.intercalate xs = [] ↔ xs = [] := by
  constructor
  · intro h
    cases xs with
    | nil => rfl
    | cons x xs =>
      rw [intercalate_cons_eq] at h
      exact absurd ((List.append_eq_nil_iff.mp h).1 ▸ List.mem_cons_self) hx
  · rintro rfl
    rfl

variable [BEq α] [LawfulBEq α]

theorem splitOn_injective (mark : α) : Function.Injective fun x : List α => x.splitOn mark := by
  have hjoin (x : List α) : [mark].intercalate (x.splitOn mark) = x := List.intercalate_splitOn mark
  intro x y h
  rw [← hjoin x, ← hjoin y]
  exact congrArg _ h

/-- The first mark is where two texts go on in the same way. -/
theorem append_cons_inj {x y rest rest' : List α} (hx : mark ∉ x) (hy : mark ∉ y)
    (h : x ++ mark :: rest = y ++ mark :: rest') : x = y ∧ rest = rest' := by
  have hsplit := congrArg (List.splitOn mark) h
  rw [List.splitOn_append_cons_self_of_not_mem hx, List.splitOn_append_cons_self_of_not_mem hy] at hsplit
  obtain ⟨hfront, hrest⟩ := List.cons.inj hsplit
  exact ⟨hfront, splitOn_injective mark hrest⟩

theorem eq_of_intercalate_eq (hx : ∀ x ∈ xs, mark ∉ x) (hy : ∀ y ∈ ys, mark ∉ y) (hxs : xs ≠ [])
    (hys : ys ≠ []) (h : [mark].intercalate xs = [mark].intercalate ys) : xs = ys := by
  rw [← List.splitOn_intercalate mark hx hxs, h, List.splitOn_intercalate mark hy hys]

theorem eq_of_intercalate_around_eq (hfront : mark ∉ front) (hback : mark ∉ back)
    (hx : ∀ x ∈ xs, mark ∉ x) (hy : ∀ y ∈ ys, mark ∉ y) (hxs : xs ≠ []) (hys : ys ≠ [])
    (h : (front ++ mark :: back).intercalate xs = (front ++ mark :: back).intercalate ys) :
    xs = ys := by
  have hfree {zs : List (List α)} (hz : ∀ z ∈ zs, mark ∉ z) :
      ∀ z ∈ zs.map fun z => back ++ z ++ front, mark ∉ z := by
    refine List.forall_mem_map.mpr fun z hmem => ?_
    simp [hfront, hback, hz z hmem]
  have hparts : (xs.map fun x => back ++ x ++ front) = ys.map fun y => back ++ y ++ front := by
    refine eq_of_intercalate_eq (hfree hx) (hfree hy) (by simpa using hxs) (by simpa using hys) ?_
    rw [← append_intercalate_append mark front back hxs, h,
      append_intercalate_append mark front back hys]
  refine List.map_injective_iff.mpr (fun x y hxy => ?_) hparts
  simpa using hxy

/-- Cut at its marks, a joined text has the pieces of its parts with the tokens between them. -/
theorem splitOn_intercalate_token (htoken : mark ∉ token) (h : xs ≠ []) :
    ((mark :: token ++ [mark]).intercalate xs).splitOn mark =
      [token].intercalate (xs.map (·.splitOn mark)) := by
  induction xs with
  | nil => exact absurd rfl h
  | cons x xs ih =>
    cases xs with
    | nil => simp
    | cons y xs =>
      have hrest := ih (List.cons_ne_nil y xs)
      rw [List.map_cons] at hrest
      rw [List.intercalate_cons_cons, List.map_cons, List.map_cons, List.intercalate_cons_cons,
        ← hrest]
      simp [List.splitOn_append_cons_self, List.splitOn_eq_singleton htoken]

theorem eq_of_intercalate_token_eq (htoken : mark ∉ token) (hx : ∀ x ∈ xs, token ∉ x.splitOn mark)
    (hy : ∀ y ∈ ys, token ∉ y.splitOn mark) (hxs : xs ≠ []) (hys : ys ≠ [])
    (h : (mark :: token ++ [mark]).intercalate xs = (mark :: token ++ [mark]).intercalate ys) :
    xs = ys := by
  have hpieces : xs.map (·.splitOn mark) = ys.map (·.splitOn mark) := by
    refine eq_of_intercalate_eq (List.forall_mem_map.mpr hx) (List.forall_mem_map.mpr hy)
      (by simpa using hxs) (by simpa using hys) ?_
    rw [← splitOn_intercalate_token htoken hxs, h, splitOn_intercalate_token htoken hys]
  exact List.map_injective_iff.mpr (splitOn_injective mark) hpieces

/-- The pieces of a text joined by separators with a mark at their end. -/
theorem mem_splitOn_intercalate (hfront : mark ∉ front) (hx : ∀ x ∈ xs, mark ∉ x)
    (h : piece ∈ ((front ++ [mark]).intercalate xs).splitOn mark) :
    piece = [] ∨ ∃ x ∈ xs, piece = x ∨ piece = x ++ front := by
  induction xs with
  | nil => exact Or.inl (by simpa using h)
  | cons x xs ih =>
    obtain ⟨hfree, hx⟩ := List.forall_mem_cons.mp hx
    cases xs with
    | nil =>
      rw [List.intercalate_singleton, List.splitOn_eq_singleton hfree, List.mem_singleton] at h
      exact Or.inr ⟨x, List.mem_cons_self, Or.inl h⟩
    | cons y xs =>
      have hsplit : (front ++ [mark]).intercalate (x :: y :: xs) =
          (x ++ front) ++ mark :: (front ++ [mark]).intercalate (y :: xs) := by
        rw [List.intercalate_cons_cons]
        simp
      rw [hsplit, List.splitOn_append_cons_self, List.mem_append,
        List.splitOn_eq_singleton (by simp [hfree, hfront]), List.mem_singleton] at h
      rcases h with rfl | h
      · exact Or.inr ⟨x, List.mem_cons_self, Or.inr rfl⟩
      · refine (ih hx h).imp_right ?_
        rintro ⟨z, hz, heq⟩
        exact ⟨z, List.mem_cons_of_mem x hz, heq⟩

end Separators

/-- Where two items look alike, so they do under `f` : then this is so for two lists of items. -/
theorem map_eq_of_map_eq {α β γ : Type} {look : α → β} {f : α → γ} {xs ys : List α}
    (hf : ∀ x ∈ xs, ∀ y ∈ ys, look x = look y → f x = f y) (h : xs.map look = ys.map look) :
    xs.map f = ys.map f := by
  induction xs generalizing ys with
  | nil => rw [List.map_eq_nil_iff.mp h.symm]
  | cons x xs ih =>
    cases ys with
    | nil => exact absurd h (List.cons_ne_nil _ _)
    | cons y ys =>
      obtain ⟨hxy, hrest⟩ := List.cons.inj h
      rw [List.map_cons, List.map_cons, hf x List.mem_cons_self y List.mem_cons_self hxy,
        ih (fun x' hx' y' hy' => hf x' (List.mem_cons_of_mem x hx') y' (List.mem_cons_of_mem y hy'))
          hrest]

end Lookahead.Text
