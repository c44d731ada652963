import Mathlib.Data.List.TakeWhile
import Lookahead.Proofs.Grammar.RuleLines
import Lookahead.Proofs.Text.Joined

/-!
# What reading a line depends on

A line is read as words, with bars and arrows between them (`lineWords`), and the rule or the fault
depends on nothing else (`ofLine_eq_ofLineWords`). So how a line is laid out matters as far as its
words do.

What the words of a text of two parts are is known from the words of the parts. Behind an arrow,
the pieces of the one part come after those of the other (`lineWords_arrow`). At a bar, the last
piece between arrows of the one and the first of the other become one piece (`lineWords_bar`), and
at blanks, the last words and the first words come together as well (`lineWords_blanks`). Two lists
that are joined at an item in this way are `glue`d.

* `lineWords_run`, `lineWords_of_isSeam` : how long a run of blanks is does not matter, nor whether
  there is one at the ends of a line and around bars and arrows.
-/

namespace Lookahead

open Text

/-! ## Lists that are joined at an item -/

section Glue

variable {α β : Type} {f : α → α → α} {x y : α} {xs ys : List α}

/-- The second list behind the first, where the last item of the first and the first item of the
second are made one. -/
def glue (f : α → α → α) : List α → List α → List α
  | [], ys => ys
  | [x], [] => [x]
  | [x], y :: ys => f x y :: ys
  | x :: x' :: xs, ys => x :: glue f (x' :: xs) ys

theorem map_glue {g : α → β} {f' : β → β → β} (h : ∀ x y, g (f x y) = f' (g x) (g y))
    (xs ys : List α) : (glue f xs ys).map g = glue f' (xs.map g) (ys.map g) := by
  fun_induction glue f xs ys with
  | case1 => rfl
  | case2 => rfl
  | case3 x y ys => rw [List.map_cons, h]; rfl
  | case4 x x' xs ys ih => rw [List.map_cons, ih, List.map_cons, List.map_cons]; rfl

theorem mem_glue {z : α} (h : z ∈ glue f xs ys) :
    z ∈ xs ∨ z ∈ ys ∨ ∃ x ∈ xs, ∃ y ∈ ys, z = f x y := by
  fun_induction glue f xs ys with
  | case1 => exact Or.inr (Or.inl h)
  | case2 => exact Or.inl h
  | case3 x y ys =>
    rcases List.mem_cons.mp h with rfl | h
    · exact Or.inr (Or.inr ⟨x, by simp, y, by simp, rfl⟩)
    · exact Or.inr (Or.inl (List.mem_cons_of_mem _ h))
  | case4 x x' xs ys ih =>
    rcases List.mem_cons.mp h with rfl | h
    · exact Or.inl List.mem_cons_self
    · rcases ih h with h | h | ⟨z', hz', y, hy, heq⟩
      · exact Or.inl (List.mem_cons_of_mem _ h)
      · exact Or.inr (Or.inl h)
      · exact Or.inr (Or.inr ⟨z', List.mem_cons_of_mem _ hz', y, hy, heq⟩)

theorem glue_ne_nil (hne : xs ≠ []) : glue f xs ys ≠ [] := by
  fun_cases glue f xs ys <;> simp_all

/-- Joining the parts that were put together around a text puts the joined texts together around
it. -/
theorem intercalate_glue (sep mid : List α) {xs ys : List (List α)} (hx : xs ≠ []) (hy : ys ≠ []) :
    sep.intercalate (glue (fun x y => x ++ mid ++ y) xs ys) =
      sep.intercalate xs ++ mid ++ sep.intercalate ys := by
  obtain ⟨y, ys, rfl⟩ := List.exists_cons_of_ne_nil hy
  induction xs with
  | nil => exact absurd rfl hx
  | cons x xs ih =>
    cases xs with
    | nil => simp [glue, intercalate_cons_eq]
    | cons x' xs =>
      rw [glue, List.intercalate_cons_of_ne_nil (glue_ne_nil (List.cons_ne_nil _ _)),
        ih (List.cons_ne_nil _ _), List.intercalate_cons_cons]
      simp only [List.append_assoc]

/-- An item that changes nothing when it is put in front. -/
theorem glue_singleton (hne : ys ≠ []) (h : ∀ y ∈ ys, f x y = y) : glue f [x] ys = ys := by
  obtain ⟨y, ys, rfl⟩ := List.exists_cons_of_ne_nil hne
  rw [glue, h y List.mem_cons_self]

/-- An item that changes nothing when it is put behind. -/
theorem glue_singleton_right (hne : xs ≠ []) (h : ∀ x ∈ xs, f x y = x) : glue f xs [y] = xs := by
  induction xs with
  | nil => exact absurd rfl hne
  | cons x xs ih =>
    cases xs with
    | nil => rw [glue, h x List.mem_cons_self]
    | cons x' xs =>
      rw [glue, ih (List.cons_ne_nil _ _) fun z hz => h z (List.mem_cons_of_mem _ hz)]

end Glue

/-! ## Words between bars -/

section BarWords

variable {x y cs blanks w : List Char}

theorem words_blanks_append (h : isBlankText blanks = true) (cs : List Char) :
    words (blanks ++ cs) = words cs := by
  induction blanks with
  | nil => rfl
  | cons b blanks ih =>
    simp only [isBlankText, List.all_cons, Bool.and_eq_true] at h
    rw [List.cons_append, words_blank_cons h.1, ih h.2]

/-- No word goes over blanks. -/
theorem words_append_blanks_append (hne : blanks ≠ []) (h : isBlankText blanks = true)
    (x y : List Char) : words (x ++ blanks ++ y) = words x ++ words y := by
  obtain ⟨b, blanks, rfl⟩ := List.exists_cons_of_ne_nil hne
  simp only [isBlankText, List.all_cons, Bool.and_eq_true] at h
  rw [List.append_assoc, List.cons_append, words_append_cons h.1, words_blanks_append h.2]

/-- The words of a text, bar by bar. -/
def barWords (cs : List Char) : List (List (List Char)) :=
  (cs.splitOn '|').map words

theorem barWords_ne_nil (cs : List Char) : barWords cs ≠ [] := by
  simp [barWords]

theorem barWords_of_not_mem (h : '|' ∉ cs) : barWords cs = [words cs] := by
  rw [barWords, List.splitOn_eq_singleton h]
  rfl

theorem barWords_bar (x y : List Char) : barWords (x ++ '|' :: y) = barWords x ++ barWords y := by
  rw [barWords, List.splitOn_append_cons_self, List.map_append]
  rfl

theorem not_mem_of_isBlankText {c : Char} (h : isBlankText blanks = true)
    (hc : isBlank c = false) : c ∉ blanks := fun hmem => by
  rw [isBlankText, List.all_eq_true] at h
  simp [h c hmem] at hc

/-- What does not hold the separator goes into the pieces before and behind it. -/
theorem splitOn_append_append {c : Char} {mid : List Char} (hmid : c ∉ mid) (x y : List Char) :
    (x ++ mid ++ y).splitOn c = glue (fun x y => x ++ mid ++ y) (x.splitOn c) (y.splitOn c) := by
  have hx := List.splitOn_ne_nil c x
  have hjoin := intercalate_glue [c] mid hx (List.splitOn_ne_nil c y)
  rw [List.intercalate_splitOn, List.intercalate_splitOn] at hjoin
  rw [← hjoin]
  refine List.splitOn_intercalate c (fun piece hpiece => ?_) (glue_ne_nil hx)
  rcases mem_glue hpiece with h | h | ⟨x', hx', y', hy', rfl⟩
  · exact not_mem_of_mem_splitOn h
  · exact not_mem_of_mem_splitOn h
  · simp [hmid, not_mem_of_mem_splitOn hx', not_mem_of_mem_splitOn hy']

theorem barWords_blanks (hne : blanks ≠ []) (h : isBlankText blanks = true) (x y : List Char) :
    barWords (x ++ blanks ++ y) = glue (· ++ ·) (barWords x) (barWords y) := by
  rw [barWords, splitOn_append_append (not_mem_of_isBlankText h (by decide))]
  exact map_glue (words_append_blanks_append hne h) _ _

end BarWords

/-! ## Words between arrows and bars -/

section LineWords

variable {front back blanks blanks' line line' : List Char}

/-- The words of a line, arrow by arrow and bar by bar. -/
def lineWords (line : List Char) : List (List (List (List Char))) :=
  (arrowPieces line).map barWords

theorem lineWords_ne_nil (line : List Char) : lineWords line ≠ [] := by
  simp [lineWords, arrowPieces_ne_nil]

theorem lineWords_arrow (front back : List Char) :
    lineWords (front ++ arrow ++ back) = lineWords front ++ lineWords back := by
  rw [lineWords, arrowPieces_append, List.map_append]
  rfl

/-- Pieces without arrows are the pieces of the text that they make up with arrows between them. -/
theorem arrowPieces_intercalate {pieces : List (List Char)} (hne : pieces ≠ [])
    (h : ∀ piece ∈ pieces, ¬arrow <:+: piece) :
    arrowPieces (arrow.intercalate pieces) = pieces := by
  induction pieces with
  | nil => exact absurd rfl hne
  | cons piece pieces ih =>
    obtain ⟨hpiece, hpieces⟩ := List.forall_mem_cons.mp h
    cases pieces with
    | nil => simpa using arrowPieces_eq_singleton hpiece
    | cons next pieces =>
      rw [List.intercalate_cons_cons, arrowPieces_append, ih (List.cons_ne_nil _ _) hpieces,
        arrowPieces_eq_singleton hpiece]
      rfl

/-- What shares no character with the arrow goes into the pieces before and behind it. -/
theorem arrowPieces_append_append {mid : List Char} (hne : mid ≠ []) (hmid : ∀ c ∈ mid, c ∉ arrow)
    (front back : List Char) : arrowPieces (front ++ mid ++ back) =
      glue (fun x y => x ++ mid ++ y) (arrowPieces front) (arrowPieces back) := by
  have hfront := arrowPieces_ne_nil front
  have hjoin := intercalate_glue arrow mid hfront (arrowPieces_ne_nil back)
  rw [intercalate_arrowPieces, intercalate_arrowPieces] at hjoin
  rw [← hjoin]
  refine arrowPieces_intercalate (glue_ne_nil hfront) fun piece hpiece => ?_
  rcases mem_glue hpiece with h | h | ⟨x, hx, y, hy, rfl⟩
  · exact not_infix_of_mem_arrowPieces h
  · exact not_infix_of_mem_arrowPieces h
  · rw [List.append_assoc]
    intro harrow
    rcases infix_of_infix_append_append hne hmid harrow with h | h
    · exact not_infix_of_mem_arrowPieces hx h
    · exact not_infix_of_mem_arrowPieces hy h

theorem lineWords_bar (front back : List Char) :
    lineWords (front ++ '|' :: back) = glue (· ++ ·) (lineWords front) (lineWords back) := by
  have hbar : front ++ '|' :: back = front ++ ['|'] ++ back := by simp
  have hmid : ∀ c ∈ ['|'], c ∉ arrow := List.forall_mem_singleton.mpr (by decide)
  rw [lineWords, hbar, arrowPieces_append_append (List.cons_ne_nil _ _) hmid]
  refine map_glue (fun x y => ?_) _ _
  rw [List.append_assoc, List.singleton_append, barWords_bar]

theorem lineWords_blanks (hne : blanks ≠ []) (h : isBlankText blanks = true)
    (front back : List Char) : lineWords (front ++ blanks ++ back) =
      glue (glue (· ++ ·)) (lineWords front) (lineWords back) := by
  have harrow : ∀ c ∈ arrow, isBlank c = false :=
    List.forall_mem_cons.mpr ⟨by decide, List.forall_mem_singleton.mpr (by decide)⟩
  rw [lineWords, arrowPieces_append_append hne fun c hc hmem =>
    not_mem_of_isBlankText h (harrow c hmem) hc]
  exact map_glue (barWords_blanks hne h) _ _

/-! ## Blanks that do not matter -/

/-- How long a run of blanks is, and of which blanks, does not matter. -/
theorem lineWords_run (hne : blanks ≠ []) (hne' : blanks' ≠ []) (h : isBlankText blanks = true)
    (h' : isBlankText blanks' = true) (front back : List Char) :
    lineWords (front ++ blanks ++ back) = lineWords (front ++ blanks' ++ back) := by
  rw [lineWords_blanks hne h, lineWords_blanks hne' h']

theorem lineWords_nil : lineWords [] = [[[]]] := rfl

theorem lineWords_blanks_append (h : isBlankText blanks = true) (back : List Char) :
    lineWords (blanks ++ back) = lineWords back := by
  by_cases hne : blanks = []
  · rw [hne, List.nil_append]
  have hinner (piece : List Char) : glue (· ++ ·) [[]] (barWords piece) = barWords piece :=
    glue_singleton (barWords_ne_nil piece) fun _ _ => List.nil_append _
  rw [← List.nil_append blanks, lineWords_blanks hne h, lineWords_nil]
  refine glue_singleton (lineWords_ne_nil back) fun piece hpiece => ?_
  obtain ⟨piece, -, rfl⟩ := List.mem_map.mp hpiece
  exact hinner piece

theorem lineWords_append_blanks (h : isBlankText blanks = true) (front : List Char) :
    lineWords (front ++ blanks) = lineWords front := by
  by_cases hne : blanks = []
  · rw [hne, List.append_nil]
  rw [← List.append_nil (front ++ blanks), lineWords_blanks hne h, lineWords_nil]
  refine glue_singleton_right (lineWords_ne_nil front) fun piece hpiece => ?_
  obtain ⟨piece, -, rfl⟩ := List.mem_map.mp hpiece
  exact glue_singleton_right (barWords_ne_nil piece) fun _ _ => List.append_nil _

/-- The two parts of a line meet at one of its ends, or at one of the sides of a bar or an arrow. -/
def IsSeam (front back : List Char) : Prop :=
  front = [] ∨ back = [] ∨ ['|'] <:+ front ∨ arrow <:+ front ∨ ['|'] <+: back ∨ arrow <+: back

/-- Blanks at the ends of a line and around bars and arrows do not matter. -/
theorem lineWords_of_isSeam (hseam : IsSeam front back) (h : isBlankText blanks = true) :
    lineWords (front ++ blanks ++ back) = lineWords (front ++ back) := by
  rcases hseam with rfl | rfl | ⟨front, rfl⟩ | ⟨front, rfl⟩ | ⟨back, rfl⟩ | ⟨back, rfl⟩
  · exact lineWords_blanks_append h back
  · rw [List.append_nil, List.append_nil, lineWords_append_blanks h]
  · simp only [List.append_assoc, List.singleton_append]
    rw [List.cons_append, lineWords_bar, lineWords_bar, lineWords_blanks_append h]
  · rw [List.append_assoc (front ++ arrow), lineWords_arrow, lineWords_arrow,
      lineWords_blanks_append h]
  · rw [List.singleton_append, lineWords_bar, lineWords_bar, lineWords_append_blanks h]
  · rw [← List.append_assoc, ← List.append_assoc, lineWords_arrow, lineWords_arrow,
      lineWords_append_blanks h]

end LineWords

/-! ## A single word -/

section Words

variable {c : Char} {cs w : List Char}

/-- What stands in front of the first blank. -/
theorem exists_append_of_isBlank (cs : List Char) : ∃ w rest, cs = w ++ rest ∧
    (∀ d ∈ w, isBlank d = false) ∧ ∀ b ∈ rest.head?, isBlank b = true := by
  induction cs with
  | nil => exact ⟨[], [], rfl, by simp, by simp⟩
  | cons c cs ih =>
    cases hc : isBlank c with
    | true => exact ⟨[], c :: cs, rfl, by simp, by simpa using hc⟩
    | false =>
      obtain ⟨w, rest, rfl, hw, hrest⟩ := ih
      exact ⟨c :: w, rest, rfl, List.forall_mem_cons.mpr ⟨hc, hw⟩, hrest⟩

/-- A text that does not start with a blank starts with its first word. -/
theorem exists_word_append (h : isBlank c = false) (cs : List Char) : ∃ w rest,
    c :: cs = w ++ rest ∧ words (c :: cs) = w :: words rest := by
  obtain ⟨w, rest, hsplit, hw, hrest⟩ := exists_append_of_isBlank (c :: cs)
  have hne : w ≠ [] := by
    rintro rfl
    have hhead : c ∈ rest.head? := by
      rw [← List.nil_append rest, ← hsplit]
      rfl
    simp [hrest c hhead] at h
  refine ⟨w, rest, hsplit, ?_⟩
  rw [hsplit]
  cases rest with
  | nil => rw [List.append_nil, words_of_not_isBlank hne hw, words_nil]
  | cons b rest =>
    have hb : isBlank b = true := hrest b rfl
    rw [words_append_cons hb, words_of_not_isBlank hne hw, words_blank_cons hb]
    rfl

theorem words_eq_nil_iff : words cs = [] ↔ isBlankText cs = true := by
  refine ⟨fun h => ?_, words_of_isBlankText⟩
  induction cs with
  | nil => rfl
  | cons c cs ih =>
    cases hc : isBlank c with
    | true =>
      rw [words_blank_cons hc] at h
      rw [isBlankText, List.all_cons, hc]
      exact ih h
    | false =>
      obtain ⟨w, rest, -, hwords⟩ := exists_word_append hc cs
      simp [hwords] at h

/-- A text with a single word is trimmed to that word. -/
theorem trim_of_words_eq_singleton (h : words cs = [w]) : trim cs = w := by
  have hw : w ∈ words cs := by simp [h]
  suffices hparts : ∃ front back, isBlankText front = true ∧ isBlankText back = true ∧
      cs = front ++ w ++ back by
    obtain ⟨front, back, hfront, hback, rfl⟩ := hparts
    exact trim_blanks_append hfront hback (fun c hc => not_isBlank_of_mem_words hw hc)
      (ne_nil_of_mem_words hw)
  clear hw
  induction cs with
  | nil => simp at h
  | cons c cs ih =>
    cases hc : isBlank c with
    | true =>
      rw [words_blank_cons hc] at h
      obtain ⟨front, back, hfront, hback, rfl⟩ := ih h
      exact ⟨c :: front, back, by rwa [isBlankText, List.all_cons, hc], hback, rfl⟩
    | false =>
      obtain ⟨v, rest, hsplit, hwords⟩ := exists_word_append hc cs
      obtain ⟨rfl, hrest⟩ := List.cons.inj (hwords.symm.trans h)
      exact ⟨[], rest, rfl, words_eq_nil_iff.mp hrest, hsplit⟩

/-- What is trimmed off is blank. -/
theorem exists_eq_trim (cs : List Char) : ∃ front back, isBlankText front = true ∧
    isBlankText back = true ∧ cs = front ++ trim cs ++ back := by
  let rest := cs.dropWhile isBlank
  refine ⟨cs.takeWhile isBlank, (rest.reverse.takeWhile isBlank).reverse, List.all_takeWhile, ?_,
    ?_⟩
  · rw [isBlankText, List.all_reverse]
    exact List.all_takeWhile
  · have hrest : trim cs ++ (rest.reverse.takeWhile isBlank).reverse = rest := by
      rw [trim, trimEnd, ← List.reverse_append, List.takeWhile_append_dropWhile,
        List.reverse_reverse]
    rw [List.append_assoc, hrest, List.takeWhile_append_dropWhile]

theorem trim_eq_nil_iff : trim cs = [] ↔ isBlankText cs = true := by
  obtain ⟨front, back, hfront, hback, hsplit⟩ := exists_eq_trim cs
  constructor
  · intro h
    rw [hsplit, h, List.append_nil, isBlankText, List.all_append]
    exact Bool.and_eq_true_iff.mpr ⟨hfront, hback⟩
  · intro h
    rw [trim, List.dropWhile_eq_nil_iff.mpr (List.all_eq_true.mp h)]
    rfl

theorem barWords_eq_singleton_iff {ws : List (List Char)} :
    barWords cs = [ws] ↔ '|' ∉ cs ∧ words cs = ws := by
  constructor
  · intro h
    have hbar : '|' ∉ cs := by
      have hlength := congrArg List.length h
      rw [barWords, List.length_map, length_splitOn, List.length_singleton] at hlength
      exact List.count_eq_zero.mp (Nat.succ.inj hlength)
    rw [barWords_of_not_mem hbar] at h
    exact ⟨hbar, (List.cons.inj h).1⟩
  · rintro ⟨hbar, rfl⟩
    exact barWords_of_not_mem hbar

theorem isBlankText_iff_barWords : isBlankText cs = true ↔ barWords cs = [[]] := by
  rw [barWords_eq_singleton_iff, words_eq_nil_iff]
  exact ⟨fun h => ⟨not_mem_of_isBlankText h (by decide), h⟩, And.right⟩

end Words

/-! ## Reading words -/

section Reading

variable {before after line line' : List Char}

theorem barWords_of_isIdentifier (h : IsIdentifier (trim before)) :
    barWords before = [[trim before]] := by
  obtain ⟨front, back, hfront, hback, hsplit⟩ := exists_eq_trim before
  have hname : ∀ c ∈ trim before, isBlank c = false := fun c hc =>
    not_isBlank_of_isIdentifierChar (h.2 c hc)
  have hbar : '|' ∉ trim before := fun hmem => absurd (h.2 _ hmem) (by decide +kernel)
  refine barWords_eq_singleton_iff.mpr ⟨?_, ?_⟩
  · rw [hsplit]
    simp [hbar, not_mem_of_isBlankText hfront (c := '|') (by decide),
      not_mem_of_isBlankText hback (c := '|') (by decide)]
  · calc words before = words (front ++ trim before ++ back) := by rw [← hsplit]
      _ = [trim before] := by
        rw [words_append_blanks hback, words_blanks_append hfront, words_of_not_isBlank h.1 hname]

/-- The rule with these words on its sides. -/
def Rule.ofSideWords (left right : List (List (List Char))) : Except RuleFault Rule :=
  match left with
  | [[]] => .error .emptyLeft
  | [[name]] =>
    if name.all isIdentifierChar then
      if String.ofList name = epsilonName then .error .leftEpsilon
      else if right = [[]] then .error .emptyRight
      else .ok ⟨String.ofList name, right.map (·.map String.ofList)⟩
    else .error .leftNotIdentifier
  | _ => .error .leftNotIdentifier

/-- The rule that a line with these words states. -/
def Rule.ofLineWords : List (List (List (List Char))) → Except RuleFault Rule
  | [left, right] => ofSideWords left right
  | _ :: _ :: _ :: _ => .error .tooManyArrows
  | _ => .error .missingArrow

theorem ofSides_eq_ofSideWords (before after : List Char) :
    Rule.ofSides before after = Rule.ofSideWords (barWords before) (barWords after) := by
  rw [ofSides_eq]
  by_cases hnil : trim before = []
  · rw [if_pos hnil, isBlankText_iff_barWords.mp (trim_eq_nil_iff.mp hnil)]
    rfl
  by_cases hid : IsIdentifier (trim before)
  · rw [if_neg hnil, if_pos hid, barWords_of_isIdentifier hid, Rule.ofSideWords,
      if_pos (List.all_eq_true.mpr hid.2)]
    simp only [isBlankText_iff_barWords, alternativesOfBody, barWords, List.map_map]
    rfl
  · rw [if_neg hnil, if_neg hid]
    have hempty : barWords before ≠ [[]] := fun h =>
      hnil (trim_eq_nil_iff.mpr (isBlankText_iff_barWords.mpr h))
    have hname (name : List Char) (h : barWords before = [[name]]) :
        ¬name.all isIdentifierChar = true := by
      have hwords := (barWords_eq_singleton_iff.mp h).2
      obtain rfl := trim_of_words_eq_singleton hwords
      exact fun hall => hid ⟨hnil, List.all_eq_true.mp hall⟩
    unfold Rule.ofSideWords
    split
    · next h => exact absurd h hempty
    · next name h => rw [if_neg (hname name h)]
    · rfl

/-- A line is read by its words. -/
theorem ofLine_eq_ofLineWords (line : List Char) :
    Rule.ofLine line = Rule.ofLineWords (lineWords line) := by
  rw [Rule.ofLine, lineWords]
  rcases arrowPieces line with _ | ⟨before, _ | ⟨after, _ | ⟨more, rest⟩⟩⟩
  · rfl
  · rfl
  · exact ofSides_eq_ofSideWords before after
  · rfl

theorem isBlankText_iff_lineWords : isBlankText line = true ↔ lineWords line = [[[]]] := by
  constructor
  · exact fun h => lineWords_append_blanks h []
  · intro h
    obtain ⟨piece, hpiece, hwords⟩ := List.map_eq_singleton_iff.mp h
    have hline : piece = line := by
      rw [← intercalate_arrowPieces line, hpiece, List.intercalate_singleton]
    exact isBlankText_iff_barWords.mpr (hline ▸ hwords)

end Reading

end Lookahead
