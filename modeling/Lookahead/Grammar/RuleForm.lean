import Lookahead.Grammar.RuleLine

/-!
# The form of a rule line

What a line has to look like to state a rule, said without reading it: it has exactly one arrow,
in front of the arrow stands the name of a non-terminal, and behind it something that is not
blank.

`arrowPieces_eq_pair_iff` : a line is cut into two pieces exactly if an arrow stands in it once,
between the two.
-/

namespace Lookahead

open Text

/-- The arrow stands in the text exactly once, between `before` and `after`. -/
structure OneArrow (line before after : List Char) : Prop where
  eq : line = before ++ arrow ++ after
  before_free : ¬arrow <:+: before
  after_free : ¬arrow <:+: after

/-- A name that a rule can define. -/
structure IsDefinable (name : List Char) : Prop where
  ne_nil : name ≠ []
  isIdentifier : ∀ c ∈ name, isIdentifierChar c = true
  ne_epsilon : String.ofList name ≠ epsilonName

/-- The line states a rule. -/
def StatesRule (line : List Char) : Prop :=
  ∃ before after, OneArrow line before after ∧ IsDefinable (trim before) ∧ isBlankText after = false

/-! ## The pieces between arrows -/

theorem intercalate_modifyHead_cons {α : Type} (sep : List α) (c : α) {xs : List (List α)}
    (h : xs ≠ []) : sep.intercalate (xs.modifyHead (c :: ·)) = c :: sep.intercalate xs := by
  obtain ⟨y, ys, rfl⟩ := List.exists_cons_of_ne_nil h
  cases ys with
  | nil => simp
  | cons z zs =>
    rw [List.modifyHead_cons, List.intercalate_cons_cons, List.intercalate_cons_cons]
    rfl

/-- The pieces make up the text again, with arrows between them. -/
theorem intercalate_arrowPieces (cs : List Char) : arrow.intercalate (arrowPieces cs) = cs := by
  fun_induction arrowPieces cs with
  | case1 => simp
  | case2 rest ih =>
    rw [List.intercalate_cons_of_ne_nil (arrowPieces_ne_nil rest), ih]
    rfl
  | case3 c rest _ ih => rw [intercalate_modifyHead_cons _ _ (arrowPieces_ne_nil rest), ih]

theorem not_infix_tail {c : Char} {cs : List Char} (h : ¬arrow <:+: c :: cs) : ¬arrow <:+: cs :=
  fun hi => h (hi.trans (List.suffix_cons c cs).isInfix)

/-- Where no arrow starts, a character joins the piece behind it. -/
theorem arrowPieces_cons {c : Char} {cs : List Char} (h : ¬arrow <+: c :: cs) :
    arrowPieces (c :: cs) = (arrowPieces cs).modifyHead (c :: ·) := by
  rw [arrowPieces.eq_3]
  rintro rest rfl rfl
  exact h ⟨rest, rfl⟩

theorem arrowPieces_eq_singleton {cs : List Char} (h : ¬arrow <:+: cs) : arrowPieces cs = [cs] := by
  induction cs with
  | nil => rfl
  | cons c cs ih =>
    rw [arrowPieces_cons fun hp => h hp.isInfix, ih (not_infix_tail h)]
    rfl

/-- The pieces end at an arrow, as no arrow overlaps another. -/
theorem arrowPieces_append (front rest : List Char) :
    arrowPieces (front ++ arrow ++ rest) = arrowPieces front ++ arrowPieces rest := by
  fun_induction arrowPieces front with
  | case1 => exact arrowPieces_arrow_append rest
  | case2 front ih => simpa [arrowPieces] using ih
  | case3 c front hne ih =>
    have hp : ¬arrow <+: c :: (front ++ arrow ++ rest) := by
      rintro ⟨t, ht⟩
      cases front with
      | nil => simp [arrow] at ht
      | cons d front =>
        simp only [arrow, List.cons_append, List.nil_append, List.cons.injEq] at ht
        obtain ⟨rfl, rfl, -⟩ := ht
        exact hne front rfl rfl
    obtain ⟨p, ps, hps⟩ := List.exists_cons_of_ne_nil (arrowPieces_ne_nil front)
    rw [List.cons_append, List.cons_append, arrowPieces_cons hp, ih, hps]
    rfl

/-- A piece starts with the first character of the text, unless an arrow does. -/
theorem head?_of_arrowPieces {c : Char} {cs p : List Char} {ps : List (List Char)}
    (h : arrowPieces cs = (c :: p) :: ps) : cs.head? = some c := by
  fun_induction arrowPieces cs with
  | case1 => simp at h
  | case2 => simp at h
  | case3 d rest _ _ =>
    obtain ⟨q, qs, hq⟩ := List.exists_cons_of_ne_nil (arrowPieces_ne_nil rest)
    simp only [hq, List.modifyHead_cons, List.cons.injEq] at h
    simp [h.1.1]

/-- No piece has an arrow left in it. -/
theorem not_infix_of_mem_arrowPieces {cs p : List Char} (h : p ∈ arrowPieces cs) :
    ¬arrow <:+: p := by
  fun_induction arrowPieces cs generalizing p with
  | case1 =>
    simp only [List.mem_singleton] at h
    simp [h, arrow]
  | case2 rest ih =>
    rcases List.mem_cons.mp h with rfl | h
    · simp [arrow]
    · exact ih h
  | case3 c rest hne ih =>
    obtain ⟨q, qs, hq⟩ := List.exists_cons_of_ne_nil (arrowPieces_ne_nil rest)
    rw [hq, List.modifyHead_cons] at h
    rcases List.mem_cons.mp h with rfl | h
    · intro hi
      rcases List.infix_cons_iff.mp hi with hp | hi
      · obtain ⟨t, ht⟩ := hp
        simp only [arrow, List.cons_append, List.nil_append, List.cons.injEq] at ht
        obtain ⟨rfl, rfl⟩ := ht
        have := head?_of_arrowPieces hq
        obtain ⟨tail, rfl⟩ : ∃ tail, rest = '>' :: tail := by
          cases rest with
          | nil => simp at this
          | cons d tail => exact ⟨tail, by simpa using this⟩
        exact hne tail rfl rfl
      · exact ih (hq ▸ List.mem_cons_self) hi
    · exact ih (hq ▸ List.mem_cons_of_mem _ h)

theorem arrowPieces_eq_pair_iff {line before after : List Char} :
    arrowPieces line = [before, after] ↔ OneArrow line before after := by
  constructor
  · intro h
    have hb : before ∈ arrowPieces line := by simp [h]
    have ha : after ∈ arrowPieces line := by simp [h]
    refine ⟨?_, not_infix_of_mem_arrowPieces hb, not_infix_of_mem_arrowPieces ha⟩
    rw [← intercalate_arrowPieces line, h]
    simp [List.intercalate]
  · rintro ⟨rfl, hb, ha⟩
    rw [arrowPieces_append, arrowPieces_eq_singleton hb, arrowPieces_eq_singleton ha]
    rfl

end Lookahead
