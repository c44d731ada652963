import Lookahead.Proofs.Grammar.LineWords
import Lookahead.Proofs.Grammar.Spelling

/-!
# Layout does not matter

Lines can be laid out in another way (`LayoutEdit`) : blank lines come and go, blanks are put in
where words end anyway or take the place of other blanks, and a rule is split between two of its
alternatives. The grammar stays the same. If there is a fault, it stays too, and is reported for
the line where it is now.

What an edit does is local. The lines of a block are read as if nothing else were there, but for
their numbers (`Rules.ofLines_append`, `Rules.ofLines_add`). So it is enough that the old and the
new block are read alike (`ReadAlike`), either as the same with the same number of lines, or as
rules that can stand for each other wherever they are.

A text is read as the pieces between its feeds (`ofText_intercalate`). A return before a feed is a
blank at the end of a line, and behind the last feed comes a blank line that is not there.

`ofLines_relaid_ofText_relaid` : lines, and texts, after any number of edits.
-/

namespace Lookahead

open Text

/-- The error with its line at another place. -/
def GrammarError.relocate (f : Nat → Nat) : GrammarError → GrammarError
  | malformedRule line fault => malformedRule (f line) fault
  | noRules => noRules

theorem GrammarError.relocate_id : relocate id = id := by
  funext e
  cases e <;> rfl

theorem GrammarError.relocate_comp (f f' : Nat → Nat) :
    relocate (f' ∘ f) = relocate f' ∘ relocate f := by
  funext e
  cases e <;> rfl

section MapError

variable {ε α : Type}

theorem mapError_id (result : Except ε α) : result.mapError id = result := by
  cases result <;> rfl

theorem mapError_comp {ε' ε'' : Type} (f : ε → ε') (f' : ε' → ε'') (result : Except ε α) :
    result.mapError (f' ∘ f) = (result.mapError f).mapError f' := by
  cases result <;> rfl

end MapError

/-! ## Blocks of lines -/

namespace Rules

variable {number : Nat} {line line' : List Char} {lines lines' : List (List Char)}

/-- The lines behind others are read on their own. -/
theorem ofLines_append (number : Nat) (front back : List (List Char)) :
    ofLines number (front ++ back) = ofLines number front >>= fun rules =>
      (ofLines (number + front.length) back).map (rules ++ ·) := by
  induction front generalizing number with
  | nil =>
    show ofLines number back = (ofLines number back).map ([] ++ ·)
    cases ofLines number back <;> rfl
  | cons line front ih =>
    have hnumber : number + (line :: front).length = number + 1 + front.length := by
      rw [List.length_cons]
      omega
    rw [List.cons_append, hnumber]
    cases hblank : isBlankText line with
    | true => rw [ofLines_of_blank hblank, ofLines_of_blank hblank, ih]
    | false =>
      cases hr : Rule.ofLine line with
      | error fault =>
        rw [ofLines_of_error hblank hr, ofLines_of_error hblank hr]
        rfl
      | ok rule =>
        rw [ofLines_of_ok hblank hr, ofLines_of_ok hblank hr, ih]
        cases ofLines (number + 1) front with
        | error e => rfl
        | ok rules => cases ofLines (number + 1 + front.length) back <;> rfl

/-- Lines that come later have their faults later. -/
theorem ofLines_add (number k : Nat) (lines : List (List Char)) :
    ofLines (number + k) lines = (ofLines number lines).mapError (.relocate (· + k)) := by
  induction lines generalizing number with
  | nil => rfl
  | cons line lines ih =>
    have hnumber : number + k + 1 = number + 1 + k := Nat.add_right_comm _ _ _
    cases hblank : isBlankText line with
    | true => rw [ofLines_of_blank hblank, ofLines_of_blank hblank, hnumber, ih]
    | false =>
      cases hr : Rule.ofLine line with
      | error fault =>
        rw [ofLines_of_error hblank hr, ofLines_of_error hblank hr]
        rfl
      | ok rule =>
        rw [ofLines_of_ok hblank hr, ofLines_of_ok hblank hr, hnumber, ih]
        cases ofLines (number + 1) lines <;> rfl

/-- A fault is reported for one of the lines. -/
theorem bounds_of_ofLines_eq_error {e : GrammarError} (h : ofLines number lines = .error e) :
    ∃ line fault, e = .malformedRule line fault ∧ number ≤ line ∧ line < number + lines.length := by
  obtain ⟨front, line, back, fault, rfl, -, -, -, rfl⟩ := ofLines_eq_error_iff.mp h
  refine ⟨_, fault, rfl, Nat.le_add_right _ _, ?_⟩
  rw [List.length_append, List.length_cons]
  omega

/-- Lines are read by their words. -/
theorem ofLines_cons_congr (h : lineWords line = lineWords line')
    (hlines : ofLines (number + 1) lines = ofLines (number + 1) lines') :
    ofLines number (line :: lines) = ofLines number (line' :: lines') := by
  have hblank : isBlankText line = isBlankText line' := by
    rw [Bool.eq_iff_iff, isBlankText_iff_lineWords, isBlankText_iff_lineWords, h]
  have hr : Rule.ofLine line = Rule.ofLine line' := by
    rw [ofLine_eq_ofLineWords, ofLine_eq_ofLineWords, h]
  simp only [ofLines, hblank, hr, hlines]

end Rules

/-- Only the number of rules keeps them from being a grammar, and not any line. -/
theorem Grammar.mapError_relocate_ofRules (f : Nat → Nat) (rules : List Rule) :
    (ofRules rules).mapError (.relocate f) = ofRules rules := by
  cases rules <;> rfl

section Blocks

variable {old new : List (List Char)}

/-- The blocks are read as the same, line by line, or as rules that can stand for each other. -/
inductive ReadAlike (old new : List (List Char)) : Prop
  | same (hlength : old.length = new.length)
    (h : ∀ number, Rules.ofLines number old = Rules.ofLines number new)
  | rules (rules rules' : List Rule) (hold : ∀ number, Rules.ofLines number old = .ok rules)
    (hnew : ∀ number, Rules.ofLines number new = .ok rules')
    (h : ∀ before after, Grammar.ofRules (before ++ (rules ++ after)) =
      Grammar.ofRules (before ++ (rules' ++ after)))

theorem ReadAlike.symm (h : ReadAlike old new) : ReadAlike new old := by
  cases h with
  | same hlength h => exact .same hlength.symm fun number => (h number).symm
  | rules rules rules' hold hnew h =>
    exact .rules rules' rules hnew hold fun before after => (h before after).symm

/-- Where a line comes to lie if `old` lines behind the first `front` become `new` lines : the lines
behind them move, and the others stay. -/
def moved (front old new number : Nat) : Nat :=
  if number ≤ front + old then number else number + new - old

theorem moved_of_eq (front old : Nat) : moved front old old = id := by
  funext number
  rw [moved, Nat.add_sub_cancel, ite_self]
  rfl

section Moved

variable {front old new number : Nat}

theorem moved_of_le (h : number ≤ front + old) : moved front old new number = number :=
  if_pos h

theorem moved_add (h : front < number) : moved front old new (number + old) = number + new := by
  rw [moved, if_neg (by omega)]
  omega

end Moved

/-- A block takes the place of one that is read alike. -/
theorem ReadAlike.ofLines_eq (h : ReadAlike old new) (front back : List (List Char)) :
    Grammar.ofLines (front ++ (new ++ back)) = (Grammar.ofLines (front ++ (old ++ back))).mapError
      (.relocate (moved front.length old.length new.length)) := by
  have hlines (block : List (List Char)) : Rules.ofLines 1 (front ++ (block ++ back)) =
      Rules.ofLines 1 front >>= fun before =>
        (Rules.ofLines (1 + front.length) block >>= fun rules =>
          (Rules.ofLines (1 + front.length + block.length) back).map (rules ++ ·)).map
            (before ++ ·) := by
    rw [Rules.ofLines_append, Rules.ofLines_append]
  cases h with
  | same hlength h =>
    have heq : Rules.ofLines 1 (front ++ (new ++ back)) =
        Rules.ofLines 1 (front ++ (old ++ back)) := by
      rw [hlines new, hlines old, h, hlength]
    rw [Grammar.ofLines, heq, ← Grammar.ofLines, hlength, moved_of_eq, GrammarError.relocate_id,
      mapError_id]
  | rules rules rules' hold hnew h =>
    rw [Grammar.ofLines, Grammar.ofLines, hlines new, hlines old, hold, hnew,
      Rules.ofLines_add _ new.length, Rules.ofLines_add _ old.length]
    cases hfront : Rules.ofLines 1 front with
    | error e =>
      -- a fault in front of the block stays where it is
      obtain ⟨line, fault, rfl, -, hlt⟩ := Rules.bounds_of_ofLines_eq_error hfront
      show Except.error _ = Except.error (GrammarError.malformedRule (moved _ _ _ line) fault)
      rw [moved_of_le (by omega)]
    | ok before =>
      cases hback : Rules.ofLines (1 + front.length) back with
      | error e =>
        -- a fault behind it moves with the line
        obtain ⟨line, fault, rfl, hle, -⟩ := Rules.bounds_of_ofLines_eq_error hback
        show Except.error (GrammarError.malformedRule (line + new.length) fault) =
          Except.error (GrammarError.malformedRule (moved _ _ _ (line + old.length)) fault)
        rw [moved_add (by omega)]
      | ok after =>
        show Grammar.ofRules (before ++ (rules' ++ after)) =
          (Grammar.ofRules (before ++ (rules ++ after))).mapError _
        rw [Grammar.mapError_relocate_ofRules, h]

end Blocks

/-! ## A rule for each part of the alternatives -/

namespace Rules

variable {before after : List Rule} {left : String} {xs ys : List (List String)}

theorem leftSides_split : leftSides (before ++ ⟨left, xs⟩ :: ⟨left, ys⟩ :: after) =
    leftSides (before ++ ⟨left, xs ++ ys⟩ :: after) := by
  simp only [leftSides, List.map_append, List.map_cons, eraseDups_append_cons_cons]

theorem alternativesFor_split (name : String) :
    alternativesFor (before ++ ⟨left, xs⟩ :: ⟨left, ys⟩ :: after) name =
      alternativesFor (before ++ ⟨left, xs ++ ys⟩ :: after) name := by
  by_cases h : left = name <;> simp [alternativesFor, h]

end Rules

/-- Alternatives that come one after the other can come from one rule or from two. -/
theorem Grammar.ofRules_split (before after : List Rule) (left : String)
    (xs ys : List (List String)) : ofRules (before ++ ⟨left, xs⟩ :: ⟨left, ys⟩ :: after) =
      ofRules (before ++ ⟨left, xs ++ ys⟩ :: after) :=
  ofRules_congr Rules.leftSides_split fun name _ => Rules.alternativesFor_split name

section SplitLine

variable {before after left right : List Char}

/-- The arrow of a line that states a rule is its only one. -/
theorem statesRule_arrow_iff : StatesRule (before ++ arrow ++ after) ↔
    ¬arrow <:+: before ∧ ¬arrow <:+: after ∧ IsDefinable (trim before) ∧
      isBlankText after = false := by
  constructor
  · intro h
    have harrow : OneArrow (before ++ arrow ++ after) before after := by
      refine ⟨rfl, ?_, ?_⟩
      · rintro ⟨front, back, rfl⟩
        exact h.not_fails .tooManyArrows ⟨front, back, after, by simp⟩
      · rintro ⟨front, back, rfl⟩
        exact h.not_fails .tooManyArrows ⟨before, front, back, rfl⟩
    obtain ⟨_, _, harrow', hdef, hblank⟩ := h
    obtain ⟨hbefore, hafter⟩ := harrow.eq_and_eq harrow'
    exact ⟨harrow.before_free, harrow.after_free, hbefore ▸ hdef, hafter ▸ hblank⟩
  · rintro ⟨hbefore, hafter, hdef, hblank⟩
    exact ⟨before, after, ⟨rfl, hbefore, hafter⟩, hdef, hblank⟩

theorem isBlankText_of_arrow (before after : List Char) :
    isBlankText (before ++ arrow ++ after) = false := by
  have hdash : isBlank '-' = false := by decide
  simp [isBlankText, arrow, hdash]

theorem alternativesOfBody_bar (left right : List Char) :
    alternativesOfBody (left ++ '|' :: right) =
      alternativesOfBody left ++ alternativesOfBody right := by
  rw [alternativesOfBody, List.splitOn_append_cons_self, List.map_append]
  rfl

/-- A line is read as what stands before and after its arrow. -/
theorem ofLines_of_statesRule (h : StatesRule (before ++ arrow ++ after)) (number : Nat)
    (lines : List (List Char)) : Rules.ofLines number ((before ++ arrow ++ after) :: lines) =
      (Rules.ofLines (number + 1) lines).map
        (⟨String.ofList (trim before), alternativesOfBody after⟩ :: ·) := by
  obtain ⟨hbefore, hafter, hdef, hblank⟩ := statesRule_arrow_iff.mp h
  have hrule := isStatedBy_iff.mpr ⟨before, after, ⟨rfl, hbefore, hafter⟩, hdef, hblank, rfl⟩
  exact Rules.ofLines_of_ok (isBlankText_of_arrow before after) (ofLine_eq_ok_iff.mpr hrule)

theorem readAlike_split (h : StatesRule (before ++ arrow ++ (left ++ '|' :: right)))
    (hleft : isBlankText left = false) (hright : isBlankText right = false) :
    ReadAlike [before ++ arrow ++ (left ++ '|' :: right)]
      [before ++ arrow ++ left, before ++ arrow ++ right] := by
  obtain ⟨hbefore, hafter, hdef, -⟩ := statesRule_arrow_iff.mp h
  have hstates {part : List Char} (hpart : part <:+: left ++ '|' :: right)
      (hblank : isBlankText part = false) : StatesRule (before ++ arrow ++ part) :=
    statesRule_arrow_iff.mpr ⟨hbefore, fun harrow => hafter (harrow.trans hpart), hdef, hblank⟩
  have hleft' := hstates (List.prefix_append left ('|' :: right)).isInfix hleft
  have hright' := hstates ⟨left ++ ['|'], [], by simp⟩ hright
  let name := String.ofList (trim before)
  refine .rules [⟨name, alternativesOfBody left ++ alternativesOfBody right⟩]
    [⟨name, alternativesOfBody left⟩, ⟨name, alternativesOfBody right⟩] (fun number => ?_)
    (fun number => ?_) fun front back => (Grammar.ofRules_split front back name _ _).symm
  · rw [ofLines_of_statesRule h, alternativesOfBody_bar]
    rfl
  · rw [ofLines_of_statesRule hleft', ofLines_of_statesRule hright']
    rfl

end SplitLine

/-! ## Edits -/

/-- A block of lines that takes the place of another and has another layout only. -/
inductive LayoutEdit : List (List Char) → List (List Char) → Prop
  | blankLine {line : List Char} (h : isBlankText line = true) : LayoutEdit [] [line]
  | run {front blanks blanks' back : List Char} (hne : blanks ≠ []) (hne' : blanks' ≠ [])
    (h : isBlankText blanks = true) (h' : isBlankText blanks' = true) :
    LayoutEdit [front ++ blanks ++ back] [front ++ blanks' ++ back]
  | seam {front blanks back : List Char} (hseam : IsSeam front back)
    (h : isBlankText blanks = true) : LayoutEdit [front ++ back] [front ++ blanks ++ back]
  | split {before left right : List Char}
    (h : StatesRule (before ++ arrow ++ (left ++ '|' :: right)))
    (hleft : isBlankText left = false) (hright : isBlankText right = false) :
    LayoutEdit [before ++ arrow ++ (left ++ '|' :: right)]
      [before ++ arrow ++ left, before ++ arrow ++ right]
  | symm {old new : List (List Char)} (h : LayoutEdit old new) : LayoutEdit new old

/-- An edit of a block somewhere among lines, with the place where each line then lies. -/
inductive LineEdit : List (List Char) → List (List Char) → (Nat → Nat) → Prop
  | block {old new : List (List Char)} (edit : LayoutEdit old new) (front back : List (List Char)) :
    LineEdit (front ++ (old ++ back)) (front ++ (new ++ back))
      (moved front.length old.length new.length)

/-- A return in front of a feed, or a feed at the end. -/
inductive FeedEdit : List Char → List Char → Prop
  | addReturn (front back : List Char) :
    FeedEdit (front ++ '\n' :: back) (front ++ '\r' :: '\n' :: back)
  | addFeed (text : List Char) : FeedEdit text (text ++ ['\n'])
  | symm {text text' : List Char} (h : FeedEdit text text') : FeedEdit text' text

/-- An edit of a text, at its feeds or in the lines between them. -/
inductive TextEdit : List Char → List Char → (Nat → Nat) → Prop
  | lines {lines lines' : List (List Char)} {f : Nat → Nat} (edit : LineEdit lines lines' f)
    (h : ∀ line ∈ lines, '\n' ∉ line) (h' : ∀ line ∈ lines', '\n' ∉ line) :
    TextEdit (['\n'].intercalate lines) (['\n'].intercalate lines') f
  | feeds {text text' : List Char} (edit : FeedEdit text text') : TextEdit text text' id

/-- One thing becomes another by edits. -/
inductive Relaid {α : Type} (Edit : α → α → (Nat → Nat) → Prop) (a : α) : α → (Nat → Nat) → Prop
  | refl : Relaid Edit a a id
  | step {b c : α} {f f' : Nat → Nat} (h : Relaid Edit a b f) (edit : Edit b c f') :
    Relaid Edit a c (f' ∘ f)

theorem LayoutEdit.readAlike {old new : List (List Char)} (h : LayoutEdit old new) :
    ReadAlike old new := by
  induction h with
  | blankLine h =>
    refine .rules [] [] (fun number => rfl) (fun number => ?_) fun before after => rfl
    rw [Rules.ofLines_of_blank h]
    rfl
  | run hne hne' h h' =>
    exact .same rfl fun number => Rules.ofLines_cons_congr (lineWords_run hne hne' h h' _ _) rfl
  | seam hseam h =>
    exact .same rfl fun number => Rules.ofLines_cons_congr (lineWords_of_isSeam hseam h).symm rfl
  | split h hleft hright => exact readAlike_split h hleft hright
  | symm _ ih => exact ih.symm

theorem Relaid.outcome_eq {α : Type} {Edit : α → α → (Nat → Nat) → Prop} {a b : α}
    {f : Nat → Nat} (read : α → Except GrammarError Grammar)
    (hstep : ∀ a b f, Edit a b f → read b = (read a).mapError (.relocate f))
    (h : Relaid Edit a b f) : read b = (read a).mapError (.relocate f) := by
  induction h with
  | refl => rw [GrammarError.relocate_id, mapError_id]
  | step _ edit ih => rw [hstep _ _ _ edit, ih, GrammarError.relocate_comp, mapError_comp]

theorem LineEdit.ofLines_eq {lines lines' : List (List Char)} {f : Nat → Nat}
    (h : LineEdit lines lines' f) :
    Grammar.ofLines lines' = (Grammar.ofLines lines).mapError (.relocate f) := by
  cases h with
  | block edit front back => exact edit.readAlike.ofLines_eq front back

/-! ## Texts -/

section Texts

variable {lines : List (List Char)}

theorem lineWords_dropReturn (line : List Char) :
    lineWords (dropReturn '\r' line) = lineWords line := by
  unfold dropReturn
  split
  · next h =>
    have hlast : line.getLast? = some '\r' := beq_iff_eq.mp h
    obtain ⟨front, rfl⟩ := List.getLast?_eq_some_iff.mp hlast
    rw [List.dropLast_concat, lineWords_append_blanks (by decide)]
  · rfl

/-- The pieces between feeds are read like the lines. -/
theorem ofLines_linesOfPieces (number : Nat) (pieces : List (List Char)) :
    Rules.ofLines number (linesOfPieces '\r' pieces) = Rules.ofLines number pieces := by
  induction pieces generalizing number with
  | nil => rfl
  | cons piece pieces ih =>
    cases pieces with
    | nil => cases piece <;> rfl
    | cons next pieces =>
      exact Rules.ofLines_cons_congr (lineWords_dropReturn piece) (ih (number + 1))

/-- A text is read like the lines that it is made of. -/
theorem ofText_intercalate (h : ∀ line ∈ lines, '\n' ∉ line) :
    Grammar.ofText (String.ofList (['\n'].intercalate lines)) = Grammar.ofLines lines := by
  rw [Grammar.ofText, String.toList_ofList, Text.lines, linesBy, Grammar.ofLines,
    ofLines_linesOfPieces, ← Grammar.ofLines]
  cases lines with
  | nil => rfl
  | cons line lines => rw [List.splitOn_intercalate '\n' h (List.cons_ne_nil _ _)]

theorem ofText_ofList (text : List Char) :
    Grammar.ofText (String.ofList text) = Grammar.ofLines (text.splitOn '\n') := by
  have hpieces : ∀ piece ∈ text.splitOn '\n', '\n' ∉ piece := fun _ => not_mem_of_mem_splitOn
  have h := ofText_intercalate hpieces
  rwa [List.intercalate_splitOn] at h

/-- Blanks behind the last of some lines. -/
theorem ofLines_glue_blanks {blanks : List Char} (hne : lines ≠ [])
    (hblanks : isBlankText blanks = true) (number : Nat) (back : List (List Char)) :
    Rules.ofLines number (glue (fun x y => x ++ blanks ++ y) lines [[]] ++ back) =
      Rules.ofLines number (lines ++ back) := by
  induction lines generalizing number with
  | nil => exact absurd rfl hne
  | cons line lines ih =>
    cases lines with
    | nil =>
      have hwords : lineWords (line ++ blanks ++ []) = lineWords line := by
        rw [List.append_nil, lineWords_append_blanks hblanks]
      exact Rules.ofLines_cons_congr hwords rfl
    | cons next lines => exact Rules.ofLines_cons_congr rfl (ih (List.cons_ne_nil _ _) (number + 1))

theorem ofLines_concat_nil (number : Nat) (lines : List (List Char)) :
    Rules.ofLines number (lines ++ [[]]) = Rules.ofLines number lines := by
  rw [Rules.ofLines_append]
  cases Rules.ofLines number lines with
  | error e => rfl
  | ok rules => exact congrArg Except.ok (List.append_nil rules)

theorem FeedEdit.ofText_eq {text text' : List Char} (h : FeedEdit text text') :
    Grammar.ofText (String.ofList text') = Grammar.ofText (String.ofList text) := by
  induction h with
  | addReturn front back =>
    have hreturn : front ++ '\r' :: '\n' :: back = front ++ ['\r'] ++ [] ++ '\n' :: back := by
      simp
    rw [ofText_ofList, ofText_ofList, hreturn, List.splitOn_append_cons_self,
      List.splitOn_append_cons_self, splitOn_append_append (by decide)]
    exact congrArg (· >>= Grammar.ofRules)
      (ofLines_glue_blanks (List.splitOn_ne_nil _ _) (by decide) 1 _)
  | addFeed text =>
    rw [ofText_ofList, ofText_ofList, List.splitOn_append_cons_self]
    exact congrArg (· >>= Grammar.ofRules) (ofLines_concat_nil 1 _)
  | symm _ ih => exact ih.symm

theorem TextEdit.ofText_eq {text text' : List Char} {f : Nat → Nat} (h : TextEdit text text' f) :
    Grammar.ofText (String.ofList text') =
      (Grammar.ofText (String.ofList text)).mapError (.relocate f) := by
  cases h with
  | lines edit h h' => rw [ofText_intercalate h, ofText_intercalate h', edit.ofLines_eq]
  | feeds edit => rw [edit.ofText_eq, GrammarError.relocate_id, mapError_id]

end Texts

namespace Grammar

/-- Lines that are laid out in another way state the same grammar, with the same symbols, numbers,
productions and warnings, or they state none for the same reason. A faulty line is reported with the
number of the line that it has become. It is the same for texts, where the lines are what stands
between feeds, and where returns before feeds and a feed at the end do not matter either. -/
theorem ofLines_relaid_ofText_relaid :
    (∀ lines lines' f, Relaid LineEdit lines lines' f →
      ofLines lines' = (ofLines lines).mapError (.relocate f)) ∧
    (∀ text text' f, Relaid TextEdit text text' f → ofText (String.ofList text') =
      (ofText (String.ofList text)).mapError (.relocate f)) :=
  ⟨fun _ _ _ h => h.outcome_eq ofLines fun _ _ _ edit => edit.ofLines_eq,
    fun _ _ _ h => h.outcome_eq (fun text => ofText (String.ofList text))
      fun _ _ _ edit => edit.ofText_eq⟩

/-- A rule in front of a faulty line is split, a blank is put in front of its arrow, and a blank
line in front of all. The fault of line 2 is now that of line 4. In a text, the rule is split at a
return with a feed, and a feed is put at the end. -/
theorem ofLines_relaid_ofText_relaid_split :
    ofLines ["A->b|c".toList, "d".toList] = .error (.malformedRule 2 .missingArrow) ∧
    ofLines ["".toList, "A ->b".toList, "A->c".toList, "d".toList] =
      .error (.malformedRule 4 .missingArrow) ∧
    ofText "A->b|c" = .ok ⟨[⟨"A", [[3], [4]]⟩], ["b", "c"]⟩ ∧
    ofText "A->b\r\nA->c\n" = .ok ⟨[⟨"A", [[3], [4]]⟩], ["b", "c"]⟩ := by
  have hstates : StatesRule ("A".toList ++ arrow ++ ("b".toList ++ '|' :: "c".toList)) :=
    statesRule_iff.mpr ⟨⟨"A", [["b"], ["c"]]⟩, ofLine_eq_ok_iff.mp (by decide +kernel)⟩
  have hsplit : LayoutEdit ["A->b|c".toList] ["A->b".toList, "A->c".toList] :=
    .split hstates (by decide) (by decide)
  have hseam : IsSeam "A".toList "->b".toList :=
    Or.inr (Or.inr (Or.inr (Or.inr (Or.inr ⟨"b".toList, rfl⟩))))
  have hblank : isBlankText " ".toList = true := by decide
  have hlines : Relaid LineEdit ["A->b|c".toList, "d".toList]
      ["".toList, "A ->b".toList, "A->c".toList, "d".toList]
      (moved 0 0 1 ∘ moved 0 1 1 ∘ moved 0 1 2 ∘ id) :=
    .step (.step (.step .refl (.block hsplit [] ["d".toList]))
      (.block (.seam hseam hblank) [] ["A->c".toList, "d".toList]))
      (.block (.blankLine rfl) [] ["A ->b".toList, "A->c".toList, "d".toList])
  have htext : Relaid TextEdit "A->b|c".toList "A->b\r\nA->c\n".toList
      (id ∘ id ∘ moved 0 1 2 ∘ id) :=
    .step (.step (.step .refl (.lines (.block hsplit [] []) (by decide) (by decide)))
      (.feeds (.addReturn "A->b".toList "A->c".toList)))
      (.feeds (.addFeed "A->b\r\nA->c".toList))
  have hfault : ofLines ["A->b|c".toList, "d".toList] =
      .error (.malformedRule 2 .missingArrow) := by decide +kernel
  have hok : ofText "A->b|c" = .ok ⟨[⟨"A", [[3], [4]]⟩], ["b", "c"]⟩ := by decide +kernel
  have hfault' := ofLines_relaid_ofText_relaid.1 _ _ _ hlines
  have hok' := ofLines_relaid_ofText_relaid.2 _ _ _ htext
  rw [hfault] at hfault'
  rw [String.ofList_toList, String.ofList_toList, hok] at hok'
  exact ⟨hfault, hfault', hok, hok'⟩

end Grammar

end Lookahead
