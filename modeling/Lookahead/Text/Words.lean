import Lookahead.Text.Blank

/-!
# Words

`words` cuts a piece of text at its blanks, and `trim` takes the blanks off both ends.

* `not_of_mem_splitOnP`, `infix_of_mem_splitOnP` : a piece of a cut text holds nothing that the
  text was cut at, and is a stretch of the text.
* `ne_nil_of_mem_words`, `not_isBlank_of_mem_words` : a word is not empty and holds no blank.
* `words_append_cons`, `words_of_not_isBlank` : no word goes over a blank, and a text without
  blanks is a word.
-/

namespace Lookahead.Text

/-- The text without the blanks at its end. -/
def trimEnd (cs : List Char) : List Char :=
  (cs.reverse.dropWhile isBlank).reverse

/-- The text without the blanks at either end. -/
def trim (cs : List Char) : List Char :=
  trimEnd (cs.dropWhile isBlank)

/-- The longest runs of characters that are not blank, in order. -/
def words (cs : List Char) : List (List Char) :=
  (cs.splitOnP isBlank).filter (!·.isEmpty)

/-! ## Pieces -/

section Pieces

variable {α : Type} {p : α → Bool} {xs piece : List α}

/-- A piece holds nothing that the text was cut at. -/
theorem not_of_mem_splitOnP {x : α} (h : piece ∈ xs.splitOnP p) (hx : x ∈ piece) :
    p x = false := by
  induction xs generalizing piece with
  | nil =>
    simp only [List.splitOnP_nil, List.mem_singleton] at h
    simp [h] at hx
  | cons y ys ih =>
    rw [List.splitOnP_cons_eq_if_modifyHead] at h
    obtain ⟨q, qs, hqs⟩ := List.exists_cons_of_ne_nil (List.splitOnP_ne_nil p ys)
    rw [hqs] at h ih
    split at h
    · rcases List.mem_cons.mp h with rfl | h
      · simp at hx
      · exact ih h hx
    · next hy =>
      rw [List.modifyHead_cons] at h
      rcases List.mem_cons.mp h with rfl | h
      · rcases List.mem_cons.mp hx with rfl | hx
        · simpa using hy
        · exact ih (.head _) hx
      · exact ih (.tail _ h) hx

theorem prefix_of_splitOnP {rest : List (List α)} (h : xs.splitOnP p = piece :: rest) :
    piece <+: xs := by
  induction xs generalizing piece rest with
  | nil =>
    simp only [List.splitOnP_nil, List.cons.injEq] at h
    simp [← h.1]
  | cons x xs ih =>
    rw [List.splitOnP_cons_eq_if_modifyHead] at h
    obtain ⟨q, qs, hqs⟩ := List.exists_cons_of_ne_nil (List.splitOnP_ne_nil p xs)
    split at h
    · obtain ⟨rfl, -⟩ := List.cons.inj h
      exact List.nil_prefix
    · rw [hqs, List.modifyHead_cons] at h
      obtain ⟨rfl, -⟩ := List.cons.inj h
      exact (List.prefix_cons_inj x).mpr (ih hqs)

/-- A piece is a stretch of the text. -/
theorem infix_of_mem_splitOnP (h : piece ∈ xs.splitOnP p) : piece <:+: xs := by
  induction xs generalizing piece with
  | nil =>
    simp only [List.splitOnP_nil, List.mem_singleton] at h
    simp [h]
  | cons x xs ih =>
    obtain ⟨q, qs, hqs⟩ := List.exists_cons_of_ne_nil (List.splitOnP_ne_nil p (x :: xs))
    rw [hqs] at h
    rcases List.mem_cons.mp h with rfl | h
    · exact (prefix_of_splitOnP hqs).isInfix
    · refine List.infix_cons (ih ?_)
      rw [List.splitOnP_cons_eq_if_modifyHead] at hqs
      split at hqs
      · obtain ⟨-, rfl⟩ := List.cons.inj hqs
        exact h
      · obtain ⟨q', qs', hqs'⟩ := List.exists_cons_of_ne_nil (List.splitOnP_ne_nil p xs)
        rw [hqs', List.modifyHead_cons] at hqs
        obtain ⟨-, rfl⟩ := List.cons.inj hqs
        exact hqs' ▸ List.mem_cons_of_mem _ h

variable [BEq α] {a : α}

/-- Cutting at a mark gives one piece more than there are marks. -/
theorem length_splitOn (a : α) (xs : List α) : (xs.splitOn a).length = xs.count a + 1 := by
  induction xs with
  | nil => simp
  | cons x xs ih =>
    rw [List.splitOn_cons_eq_if_modifyHead, List.count_cons]
    split <;> simp [ih]

theorem not_mem_of_mem_splitOn [LawfulBEq α] (h : piece ∈ xs.splitOn a) : a ∉ piece := fun ha => by
  rw [List.splitOn_eq_splitOnP] at h
  simpa using not_of_mem_splitOnP h ha

theorem infix_of_mem_splitOn (h : piece ∈ xs.splitOn a) : piece <:+: xs := by
  rw [List.splitOn_eq_splitOnP] at h
  exact infix_of_mem_splitOnP h

end Pieces

/-! ## Words -/

@[simp] theorem words_nil : words [] = [] := by
  simp [words]

theorem words_blank_cons {c : Char} (h : isBlank c = true) (cs : List Char) :
    words (c :: cs) = words cs := by
  simp [words, List.splitOnP_cons_eq_if_modifyHead, h]

theorem words_of_isBlankText {cs : List Char} (h : isBlankText cs = true) : words cs = [] := by
  induction cs with
  | nil => rfl
  | cons c cs ih =>
    simp only [isBlankText, List.all_cons, Bool.and_eq_true] at h
    rw [words_blank_cons h.1, ih h.2]

theorem ne_nil_of_mem_words {cs w : List Char} (h : w ∈ words cs) : w ≠ [] := by
  have := (List.mem_filter.mp h).2
  simpa using this

theorem not_isBlank_of_mem_words {cs w : List Char} {c : Char} (hw : w ∈ words cs) (hc : c ∈ w) :
    isBlank c = false :=
  not_of_mem_splitOnP (List.mem_filter.mp hw).1 hc

theorem infix_of_mem_words {cs w : List Char} (h : w ∈ words cs) : w <:+: cs :=
  infix_of_mem_splitOnP (List.mem_filter.mp h).1

/-- No word goes over a blank. -/
theorem words_append_cons {b : Char} (hb : isBlank b = true) (front rest : List Char) :
    words (front ++ b :: rest) = words front ++ words rest := by
  rw [words, List.splitOnP_append_cons front rest hb, List.filter_append]
  rfl

/-- Blanks behind a text are passed over. -/
theorem words_append_blanks {blanks : List Char} (h : isBlankText blanks = true)
    (cs : List Char) : words (cs ++ blanks) = words cs := by
  cases blanks with
  | nil => rw [List.append_nil]
  | cons b blanks =>
    simp only [isBlankText, List.all_cons, Bool.and_eq_true] at h
    rw [words_append_cons h.1, words_of_isBlankText h.2, List.append_nil]

theorem words_of_not_isBlank {w : List Char} (hne : w ≠ []) (hw : ∀ c ∈ w, isBlank c = false) :
    words w = [w] := by
  rw [words, List.splitOnP_eq_singleton hw]
  simp [hne]

end Lookahead.Text
