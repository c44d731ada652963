import Lookahead.Text.Words
import Lookahead.Text.Lines

/-!
# Texts put together are cut apart again

Words are joined by blanks, alternatives by bars and lines by feeds (`List.intercalate`). Where
none of the parts holds what they are joined by, cutting the joined text gives the parts back.

* `trim_blanks_append`, `words_intercalate`, `lines_intercalate` : trimming, words and lines of a
  text put together.
* `infix_of_infix_intercalate` : a mark that shares no character with the separator stands in a
  joined text only if it stands in one of the parts.
-/

namespace Lookahead.Text

section Parts

variable {α : Type} {sep part : List α} {parts : List (List α)} {x : α}

/-- The parts behind the first come with the separator in front of them. -/
theorem intercalate_cons_eq (sep part : List α) (parts : List (List α)) :
    sep.intercalate (part :: parts) = part ++ parts.flatMap (sep ++ ·) := by
  induction parts generalizing part with
  | nil => simp
  | cons next parts ih =>
    rw [List.intercalate_cons_cons, ih, List.flatMap_cons, List.append_assoc, List.append_assoc]

theorem mem_intercalate (h : x ∈ sep.intercalate parts) : x ∈ sep ∨ ∃ part ∈ parts, x ∈ part := by
  cases parts with
  | nil => simp at h
  | cons part parts =>
    rw [intercalate_cons_eq, List.mem_append, List.mem_flatMap] at h
    rcases h with h | ⟨next, hnext, h⟩
    · exact Or.inr ⟨part, .head _, h⟩
    · exact (List.mem_append.mp h).imp_right fun h => ⟨next, .tail _ hnext, h⟩

theorem intercalate_append {front back : List (List α)} (hfront : front ≠ []) (hback : back ≠ []) :
    sep.intercalate (front ++ back) = sep.intercalate front ++ sep ++ sep.intercalate back := by
  obtain ⟨part, front, rfl⟩ := List.exists_cons_of_ne_nil hfront
  obtain ⟨next, back, rfl⟩ := List.exists_cons_of_ne_nil hback
  simp only [List.cons_append, intercalate_cons_eq, List.flatMap_append, List.flatMap_cons,
    List.append_assoc]

/-- Joining what has been joined by the same separator joins all parts. -/
theorem intercalate_map_intercalate {groups : List (List (List α))}
    (h : ∀ group ∈ groups, group ≠ []) :
    sep.intercalate (groups.map sep.intercalate) = sep.intercalate groups.flatten := by
  induction groups with
  | nil => rfl
  | cons group groups ih =>
    obtain ⟨hgroup, hgroups⟩ := List.forall_mem_cons.mp h
    cases groups with
    | nil => simp
    | cons next groups =>
      have hne : (next :: groups).flatten ≠ [] := by
        simpa using fun hnext => absurd hnext (hgroups next (.head _))
      rw [List.map_cons, List.intercalate_cons_of_ne_nil (by simp), ih hgroups]
      exact (intercalate_append hgroup hne).symm

variable {mark xs ys : List α}

/-- A mark does not go over a character that it does not hold. -/
theorem infix_of_infix_append_cons (hx : x ∉ mark) (h : mark <:+: xs ++ x :: ys) :
    mark <:+: xs ∨ mark <:+: ys := by
  have hstart {m : List α} (hm : x ∉ m) (hp : m <+: x :: ys) : m = [] := by
    cases m with
    | nil => rfl
    | cons y m =>
      obtain ⟨rfl, -⟩ := List.cons_prefix_cons.mp hp
      exact absurd (List.mem_cons_self) hm
  rcases List.infix_append_iff.mp h with h | h | ⟨front, back, rfl, hfront, hback⟩
  · exact Or.inl h
  · rcases List.infix_cons_iff.mp h with h | h
    · exact Or.inl (hstart hx h ▸ List.nil_infix)
    · exact Or.inr h
  · obtain rfl := hstart (fun hm => hx (List.mem_append_right _ hm)) hback
    rw [List.append_nil]
    exact Or.inl hfront.isInfix

theorem infix_of_infix_append_append (hne : sep ≠ []) (hsep : ∀ y ∈ sep, y ∉ mark)
    (h : mark <:+: xs ++ (sep ++ ys)) : mark <:+: xs ∨ mark <:+: ys := by
  induction sep generalizing xs with
  | nil => exact absurd rfl hne
  | cons y sep ih =>
    obtain ⟨hy, hsep⟩ := List.forall_mem_cons.mp hsep
    refine (infix_of_infix_append_cons hy h).elim Or.inl fun h => ?_
    by_cases hnil : sep = []
    · exact Or.inr (by simpa [hnil] using h)
    · refine (@ih [] hnil hsep h).imp_left fun hempty => ?_
      exact hempty.trans List.nil_infix

theorem infix_of_infix_intercalate (hmark : mark ≠ []) (hne : sep ≠ [])
    (hsep : ∀ y ∈ sep, y ∉ mark) (h : mark <:+: sep.intercalate parts) :
    ∃ part ∈ parts, mark <:+: part := by
  induction parts with
  | nil => exact absurd (List.infix_nil.mp h) hmark
  | cons part parts ih =>
    cases parts with
    | nil => exact ⟨part, .head _, by simpa using h⟩
    | cons next parts =>
      rw [List.intercalate_cons_cons, List.append_assoc] at h
      rcases infix_of_infix_append_append hne hsep h with h | h
      · exact ⟨part, .head _, h⟩
      · obtain ⟨found, hfound, hin⟩ := ih h
        exact ⟨found, .tail _ hfound, hin⟩

end Parts

/-! ## Blanks around a piece of text -/

theorem dropWhile_isBlank_append {blanks cs : List Char} (hblanks : isBlankText blanks = true)
    (hcs : ∀ c ∈ cs, isBlank c = false) (hne : cs ≠ []) (rest : List Char) :
    (blanks ++ (cs ++ rest)).dropWhile isBlank = cs ++ rest := by
  rw [List.dropWhile_append_of_pos (List.all_eq_true.mp hblanks)]
  obtain ⟨c, cs, rfl⟩ := List.exists_cons_of_ne_nil hne
  exact List.dropWhile_cons_of_neg (by simp [hcs c (.head _)])

/-- Blanks around a text without blanks are trimmed off. -/
theorem trim_blanks_append {front back cs : List Char} (hfront : isBlankText front = true)
    (hback : isBlankText back = true) (hcs : ∀ c ∈ cs, isBlank c = false) (hne : cs ≠ []) :
    trim (front ++ cs ++ back) = cs := by
  have hback' : isBlankText back.reverse = true := by simpa [isBlankText] using hback
  have hcs' : ∀ c ∈ cs.reverse, isBlank c = false := by simpa using hcs
  rw [trim, List.append_assoc, dropWhile_isBlank_append hfront hcs hne, trimEnd,
    List.reverse_append]
  have hend := dropWhile_isBlank_append hback' hcs' (by simpa using hne) []
  rw [List.append_nil] at hend
  rw [hend, List.reverse_reverse]

/-- Words with single blanks between them are the words of the text. -/
theorem words_intercalate {ws : List (List Char)}
    (h : ∀ w ∈ ws, w ≠ [] ∧ ∀ c ∈ w, isBlank c = false) : words ([' '].intercalate ws) = ws := by
  induction ws with
  | nil => rfl
  | cons w ws ih =>
    obtain ⟨⟨hne, hw⟩, hws⟩ := List.forall_mem_cons.mp h
    cases ws with
    | nil => simpa using words_of_not_isBlank hne hw
    | cons next ws =>
      rw [List.intercalate_cons_cons, List.append_assoc, List.singleton_append,
        words_append_cons isBlank_space, ih hws, words_of_not_isBlank hne hw]
      rfl

/-! ## Lines -/

/-- A text that makes up a line of its own. -/
structure IsLine (cs : List Char) : Prop where
  ne_nil : cs ≠ []
  feed_not_mem : '\n' ∉ cs
  return_not_mem : '\r' ∉ cs

theorem isLine_of_forall_isBlank {cs : List Char} (hne : cs ≠ [])
    (h : ∀ c ∈ cs, isBlank c = true → c = ' ') : IsLine cs where
  ne_nil := hne
  feed_not_mem hc := absurd (h _ hc (by decide)) (by decide)
  return_not_mem hc := absurd (h _ hc (by decide)) (by decide)

theorem linesOfPieces_eq_self {pieces : List (List Char)}
    (h : ∀ piece ∈ pieces, IsLine piece) : linesOfPieces '\r' pieces = pieces := by
  induction pieces with
  | nil => rfl
  | cons piece pieces ih =>
    obtain ⟨hpiece, hpieces⟩ := List.forall_mem_cons.mp h
    cases pieces with
    | nil => simp [linesOfPieces, hpiece.ne_nil]
    | cons next pieces =>
      have hlast : piece.getLast? ≠ some '\r' := fun hlast =>
        hpiece.return_not_mem (List.mem_of_getLast? hlast)
      rw [linesOfPieces, ih hpieces, dropReturn, if_neg (by simpa using hlast)]

/-- Lines are the lines of the text made of them. -/
theorem lines_intercalate {parts : List (List Char)} (h : ∀ part ∈ parts, IsLine part) :
    lines (['\n'].intercalate parts) = parts := by
  by_cases hnil : parts = []
  · rw [hnil]
    rfl
  · rw [lines, linesBy, List.splitOn_intercalate '\n' (fun part hp => (h part hp).feed_not_mem) hnil]
    exact linesOfPieces_eq_self h

end Lookahead.Text
