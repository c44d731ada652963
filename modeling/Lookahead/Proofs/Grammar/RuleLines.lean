import Mathlib.Data.List.Forall2
import Mathlib.Tactic.SplitIfs
import Lookahead.Grammar.RuleForm

/-!
# Lines that are read, and lines that are not

A line goes through six checks, one after the other, and the first that goes wrong is its
fault (`RuleFault.IsFirst`). What a check asks is said without reading the line
(`RuleFault.Fails`), in terms of the arrows that stand in it. A line that passes all checks
states a rule (`Rule.IsStatedBy`).

A line with one arrow goes through the checks of its two sides (`OneArrow.fails_iff`); the
number of pieces between arrows tells apart the lines with none, one and more arrows
(`missingArrow_iff`, `tooManyArrows_iff`). Lines in a row are read until the first fault
(`Rules.ofLines_eq_error_iff`).

* `ofLine_eq_ok_iff`, `ofLine_eq_error_iff` : what reading one line gives.
* `ofLines_outcome` : what reading all lines gives, faults with their lines included.
-/

namespace Lookahead

open Text

variable {line before after : List Char} {lines : List (List Char)} {fault : RuleFault}
  {rule : Rule}

/-! ## Faults and rules, without reading -/

theorem not_isBlank_of_isIdentifierChar {c : Char} (h : isIdentifierChar c = true) :
    isBlank c = false := by
  rw [isIdentifierChar, Bool.or_eq_true, beq_iff_eq] at h
  rcases h with h | rfl
  · unfold isAlphanumeric at h
    split at h
    · exact inRanges_eq_false_of_apart (by decide +kernel) h
    · exact inRanges_eq_false_of_apart (by decide +kernel) h
  · decide

/-- A name of identifier characters only. -/
def IsIdentifier (name : List Char) : Prop :=
  name ≠ [] ∧ ∀ c ∈ name, isIdentifierChar c = true

instance (name : List Char) : Decidable (IsIdentifier name) :=
  inferInstanceAs (Decidable (_ ∧ _))

/-- The check that the fault is named for goes wrong. The checks of the two sides are for
lines with one arrow. -/
def RuleFault.Fails (line : List Char) : RuleFault → Prop
  | missingArrow => ¬arrow <:+: line
  | tooManyArrows => ∃ front middle back, line = front ++ arrow ++ (middle ++ arrow ++ back)
  | emptyLeft => ∃ before after, OneArrow line before after ∧ trim before = []
  | leftNotIdentifier => ∃ before after, OneArrow line before after ∧ ¬IsIdentifier (trim before)
  | leftEpsilon =>
    ∃ before after, OneArrow line before after ∧ String.ofList (trim before) = epsilonName
  | emptyRight => ∃ before after, OneArrow line before after ∧ isBlankText after = true

/-- The faults in the order of the checks. -/
def RuleFault.inOrder : List RuleFault :=
  [missingArrow, tooManyArrows, emptyLeft, leftNotIdentifier, leftEpsilon, emptyRight]

/-- The check for the fault is the first that goes wrong on the line. -/
def RuleFault.IsFirst (line : List Char) (fault : RuleFault) : Prop :=
  fault.Fails line ∧ ∃ passed rest, inOrder = passed ++ fault :: rest ∧
    ∀ other ∈ passed, ¬other.Fails line

/-- The line states the rule : the name is what stands in front of its only arrow, and there
is an alternative for each piece between the bars behind it, word by word. -/
def Rule.IsStatedBy (line : List Char) (rule : Rule) : Prop :=
  ∃ before after pieces, OneArrow line before after ∧ IsDefinable (trim before) ∧
    isBlankText after = false ∧ rule.left = String.ofList (trim before) ∧
    ['|'].intercalate pieces = after ∧ (∀ piece ∈ pieces, '|' ∉ piece) ∧
    pieces.length = after.count '|' + 1 ∧
    rule.alternatives = pieces.map fun piece => (words piece).map String.ofList

/-! ## How many arrows a line has -/

theorem OneArrow.eq_and_eq {before' after' : List Char} (h : OneArrow line before after)
    (h' : OneArrow line before' after') : before' = before ∧ after' = after := by
  have := (arrowPieces_eq_pair_iff.mpr h').symm.trans (arrowPieces_eq_pair_iff.mpr h)
  simpa using this

theorem OneArrow.exists_and_iff (h : OneArrow line before after)
    {P : List Char → List Char → Prop} :
    (∃ x y, OneArrow line x y ∧ P x y) ↔ P before after := by
  constructor
  · rintro ⟨x, y, hxy, hP⟩
    obtain ⟨rfl, rfl⟩ := h.eq_and_eq hxy
    exact hP
  · exact fun hP => ⟨before, after, h, hP⟩

theorem missingArrow_iff : RuleFault.missingArrow.Fails line ↔ arrowPieces line = [line] := by
  refine ⟨arrowPieces_eq_singleton, fun h => ?_⟩
  have hmem : line ∈ arrowPieces line := by simp [h]
  exact not_infix_of_mem_arrowPieces hmem

theorem tooManyArrows_iff :
    RuleFault.tooManyArrows.Fails line ↔ 3 ≤ (arrowPieces line).length := by
  constructor
  · rintro ⟨front, middle, back, rfl⟩
    have hpos (cs : List Char) : 0 < (arrowPieces cs).length :=
      List.length_pos_iff.mpr (arrowPieces_ne_nil cs)
    have h1 := hpos front
    have h2 := hpos middle
    have h3 := hpos back
    simp only [arrowPieces_append, List.length_append]
    omega
  · intro h
    match hp : arrowPieces line with
    | x :: y :: z :: rest =>
      refine ⟨x, y, arrow.intercalate (z :: rest), ?_⟩
      rw [← intercalate_arrowPieces line, hp, List.intercalate_cons_cons,
        List.intercalate_cons_cons]
    | [] => simp [hp] at h
    | [_] => simp [hp] at h
    | [_, _] => simp [hp] at h

theorem OneArrow.fails_iff (h : OneArrow line before after) : ∀ fault : RuleFault,
    fault.Fails line ↔ match fault with
      | .missingArrow | .tooManyArrows => False
      | .emptyLeft => trim before = []
      | .leftNotIdentifier => ¬IsIdentifier (trim before)
      | .leftEpsilon => String.ofList (trim before) = epsilonName
      | .emptyRight => isBlankText after = true
  | .missingArrow => by simp [missingArrow_iff, arrowPieces_eq_pair_iff.mpr h]
  | .tooManyArrows => by simp [tooManyArrows_iff, arrowPieces_eq_pair_iff.mpr h]
  | .emptyLeft | .leftNotIdentifier | .leftEpsilon | .emptyRight => h.exists_and_iff

/-! ## One line -/

theorem RuleFault.IsFirst.eq {fault' : RuleFault} (h : fault.IsFirst line)
    (h' : fault'.IsFirst line) : fault = fault' := by
  classical
  have hfind {f : RuleFault} (hf : f.IsFirst line) :
      inOrder.find? (fun f => decide (f.Fails line)) = some f := by
    obtain ⟨hfails, passed, rest, hsplit, hpassed⟩ := hf
    refine List.find?_eq_some_iff_append.mpr ⟨decide_eq_true hfails, passed, rest, hsplit, ?_⟩
    simpa using hpassed
  exact Option.some.inj ((hfind h).symm.trans (hfind h'))

theorem StatesRule.not_fails (h : StatesRule line) (fault : RuleFault) : ¬fault.Fails line := by
  obtain ⟨before, after, harrow, ⟨hne, hid, heps⟩, hafter⟩ := h
  rw [harrow.fails_iff]
  cases fault with
  | missingArrow => exact not_false
  | tooManyArrows => exact not_false
  | emptyLeft => exact hne
  | leftNotIdentifier => exact not_not_intro ⟨hne, hid⟩
  | leftEpsilon => exact heps
  | emptyRight => simp [hafter]

theorem ofSides_eq : Rule.ofSides before after =
    if trim before = [] then .error .emptyLeft
    else if IsIdentifier (trim before) then
      if String.ofList (trim before) = epsilonName then .error .leftEpsilon
      else if isBlankText after then .error .emptyRight
      else .ok ⟨String.ofList (trim before), alternativesOfBody after⟩
    else .error .leftNotIdentifier := by
  unfold Rule.ofSides
  by_cases hnil : trim before = []
  · simp [hnil]
  · by_cases hid : IsIdentifier (trim before)
    · simp [hnil, hid, List.all_eq_true.mpr hid.2]
    · have hall : (trim before).all isIdentifierChar = false := by
        rw [← Bool.not_eq_true, List.all_eq_true]
        exact fun hall => hid ⟨hnil, hall⟩
      simp [hnil, hid, hall]

theorem ofSides_eq_ok_iff : Rule.ofSides before after = .ok rule ↔
    IsDefinable (trim before) ∧ isBlankText after = false ∧
      rule = ⟨String.ofList (trim before), alternativesOfBody after⟩ := by
  rw [ofSides_eq]
  constructor
  · intro h
    split_ifs at h with hnil hid heps hblank
    exact ⟨⟨hid.1, hid.2, heps⟩, by simpa using hblank, (Except.ok.inj h).symm⟩
  · rintro ⟨⟨hne, hid, heps⟩, hafter, rfl⟩
    simp [hne, show IsIdentifier (trim before) from ⟨hne, hid⟩, heps, hafter]

/-- The fault that the reader finds in the sides of a line is the first. -/
theorem OneArrow.isFirst_of_ofSides (h : OneArrow line before after)
    (hfault : Rule.ofSides before after = .error fault) : fault.IsFirst line := by
  rw [ofSides_eq] at hfault
  split_ifs at hfault with hnil hid heps hblank <;> obtain rfl := Except.error.inj hfault
  · exact ⟨(h.fails_iff _).mpr hnil, [.missingArrow, .tooManyArrows], _, rfl,
      by simp [h.fails_iff]⟩
  · exact ⟨(h.fails_iff _).mpr heps,
      [.missingArrow, .tooManyArrows, .emptyLeft, .leftNotIdentifier], _, rfl,
      by simp [h.fails_iff, hnil, hid]⟩
  · exact ⟨(h.fails_iff _).mpr hblank,
      [.missingArrow, .tooManyArrows, .emptyLeft, .leftNotIdentifier, .leftEpsilon], _, rfl,
      by simp [h.fails_iff, hnil, hid, heps]⟩
  · exact ⟨(h.fails_iff _).mpr hid, [.missingArrow, .tooManyArrows, .emptyLeft], _, rfl,
      by simp [h.fails_iff, hnil]⟩

theorem isStatedBy_iff : rule.IsStatedBy line ↔ ∃ before after, OneArrow line before after ∧
    IsDefinable (trim before) ∧ isBlankText after = false ∧
      rule = ⟨String.ofList (trim before), alternativesOfBody after⟩ := by
  constructor
  · rintro ⟨before, after, pieces, harrow, hdef, hafter, hleft, rfl, hbar, hlen, halt⟩
    have hne : pieces ≠ [] := by
      rintro rfl
      simp at hlen
    refine ⟨before, _, harrow, hdef, hafter, ?_⟩
    rw [alternativesOfBody, List.splitOn_intercalate '|' hbar hne, ← hleft, ← halt]
  · rintro ⟨before, after, harrow, hdef, hafter, rfl⟩
    exact ⟨before, after, after.splitOn '|', harrow, hdef, hafter, rfl,
      List.intercalate_splitOn '|', fun piece hp => not_mem_of_mem_splitOn hp,
      length_splitOn '|' after, rfl⟩

theorem Rule.IsStatedBy.alternatives_ne_nil (h : rule.IsStatedBy line) :
    rule.alternatives ≠ [] := by
  obtain ⟨before, after, -, -, -, rfl⟩ := isStatedBy_iff.mp h
  simp [alternativesOfBody, List.splitOn_ne_nil]

theorem ofLine_eq_ok_iff : Rule.ofLine line = .ok rule ↔ rule.IsStatedBy line := by
  rw [isStatedBy_iff]
  constructor
  · intro h
    unfold Rule.ofLine at h
    split at h
    · next before after hp =>
      exact ⟨before, after, arrowPieces_eq_pair_iff.mp hp, ofSides_eq_ok_iff.mp h⟩
    · simp at h
    · simp at h
  · rintro ⟨before, after, harrow, h⟩
    rw [Rule.ofLine, arrowPieces_eq_pair_iff.mpr harrow]
    exact ofSides_eq_ok_iff.mpr h

theorem isFirst_of_ofLine (h : Rule.ofLine line = .error fault) : fault.IsFirst line := by
  unfold Rule.ofLine at h
  split at h
  · next before after hp =>
    exact (arrowPieces_eq_pair_iff.mp hp).isFirst_of_ofSides h
  · next hp =>
    obtain rfl := Except.error.inj h
    have hmany : RuleFault.tooManyArrows.Fails line := tooManyArrows_iff.mpr (by simp [hp])
    refine ⟨hmany, [.missingArrow], _, rfl, ?_⟩
    simp [missingArrow_iff, hp]
  · next hpair hmore =>
    obtain rfl := Except.error.inj h
    refine ⟨missingArrow_iff.mpr ?_, [], _, rfl, by simp⟩
    have hjoin := intercalate_arrowPieces line
    match hp : arrowPieces line with
    | [] => exact absurd hp (arrowPieces_ne_nil line)
    | [piece] =>
      rw [hp] at hjoin
      simpa using hjoin
    | [x, y] => exact absurd hp (hpair x y)
    | x :: y :: z :: rest => exact absurd hp (hmore x y z rest)

/-- The fault of a line is the first check that goes wrong. -/
theorem ofLine_eq_error_iff : Rule.ofLine line = .error fault ↔ fault.IsFirst line := by
  refine ⟨isFirst_of_ofLine, fun h => ?_⟩
  cases hr : Rule.ofLine line with
  | error found => rw [(isFirst_of_ofLine hr).eq h]
  | ok rule =>
    obtain ⟨before, after, harrow, hdef, hafter, -⟩ :=
      isStatedBy_iff.mp (ofLine_eq_ok_iff.mp hr)
    exact absurd h.1 (StatesRule.not_fails ⟨before, after, harrow, hdef, hafter⟩ fault)

theorem statesRule_iff : StatesRule line ↔ ∃ rule : Rule, rule.IsStatedBy line := by
  simp only [isStatedBy_iff]
  constructor
  · rintro ⟨before, after, harrow, hdef, hafter⟩
    exact ⟨_, before, after, harrow, hdef, hafter, rfl⟩
  · rintro ⟨_, before, after, harrow, hdef, hafter, -⟩
    exact ⟨before, after, harrow, hdef, hafter⟩

/-! ## Lines in a row -/

namespace Rules

variable {number : Nat} {rules : List Rule}

theorem ofLines_of_blank (h : isBlankText line = true) :
    ofLines number (line :: lines) = ofLines (number + 1) lines := by
  simp [ofLines, h]

theorem ofLines_of_error (h : isBlankText line = false) (hr : Rule.ofLine line = .error fault) :
    ofLines number (line :: lines) = .error (.malformedRule number fault) := by
  simp [ofLines, h, hr]

theorem ofLines_of_ok (h : isBlankText line = false) (hr : Rule.ofLine line = .ok rule) :
    ofLines number (line :: lines) = (ofLines (number + 1) lines).map (rule :: ·) := by
  simp [ofLines, h, hr]

/-- The rules are those of the lines that are not blank. -/
theorem ofLines_eq_ok_iff : ofLines number lines = .ok rules ↔
    List.Forall₂ Rule.IsStatedBy (lines.filter (!isBlankText ·)) rules := by
  induction lines generalizing number rules with
  | nil => simp [ofLines, eq_comm]
  | cons line lines ih =>
    by_cases hblank : isBlankText line = true
    · rw [ofLines_of_blank hblank, List.filter_cons_of_neg (by simp [hblank]), ih]
    · rw [List.filter_cons_of_pos (by simp [hblank]), List.forall₂_cons_left_iff]
      rw [Bool.not_eq_true] at hblank
      cases hr : Rule.ofLine line with
      | error fault =>
        rw [ofLines_of_error hblank hr]
        refine iff_of_false (by simp) ?_
        rintro ⟨rule, _, hrule, -⟩
        simp [ofLine_eq_ok_iff.mpr hrule] at hr
      | ok rule =>
        rw [ofLines_of_ok hblank hr]
        constructor
        · intro h
          cases hrest : ofLines (number + 1) lines with
          | error e => simp [hrest, Except.map] at h
          | ok rest =>
            rw [hrest] at h
            exact ⟨rule, rest, ofLine_eq_ok_iff.mp hr, ih.mp hrest, (Except.ok.inj h).symm⟩
        · rintro ⟨rule', rest, hrule, hrest, rfl⟩
          obtain rfl := Except.ok.inj (hr.symm.trans (ofLine_eq_ok_iff.mpr hrule))
          rw [ih.mpr hrest]
          rfl

variable {e : GrammarError}

/-- A line without a fault is passed over in the search for the first fault. -/
theorem ofLines_cons_eq_error_iff (h : isBlankText line = true ∨ StatesRule line) :
    ofLines number (line :: lines) = .error e ↔ ofLines (number + 1) lines = .error e := by
  by_cases hblank : isBlankText line = true
  · rw [ofLines_of_blank hblank]
  · obtain ⟨rule, hrule⟩ := statesRule_iff.mp (h.resolve_left hblank)
    rw [ofLines_of_ok (by simpa using hblank) (ofLine_eq_ok_iff.mpr hrule)]
    cases ofLines (number + 1) lines <;> simp [Except.map]

/-- Reading stops at the first line that is neither blank nor a rule. -/
theorem ofLines_eq_error_iff : ofLines number lines = .error e ↔
    ∃ front line back fault, lines = front ++ line :: back ∧
      (∀ l ∈ front, isBlankText l = true ∨ StatesRule l) ∧ isBlankText line = false ∧
      fault.IsFirst line ∧ e = .malformedRule (number + front.length) fault := by
  induction lines generalizing number with
  | nil => simp [ofLines]
  | cons line lines ih =>
    by_cases hpass : isBlankText line = true ∨ StatesRule line
    · rw [ofLines_cons_eq_error_iff hpass, ih]
      constructor
      · rintro ⟨front, faulty, back, fault, rfl, hfront, hblank, hfault, rfl⟩
        refine ⟨line :: front, faulty, back, fault, rfl, ?_, hblank, hfault, ?_⟩
        · exact List.forall_mem_cons.mpr ⟨hpass, hfront⟩
        · rw [List.length_cons, Nat.add_right_comm, Nat.add_assoc]
      · rintro ⟨front, faulty, back, fault, hsplit, hfront, hblank, hfault, rfl⟩
        cases front with
        | nil =>
          obtain ⟨rfl, -⟩ := List.cons.inj hsplit
          rcases hpass with hpass | hpass
          · simp [hblank] at hpass
          · exact absurd hfault.1 (hpass.not_fails fault)
        | cons first front =>
          obtain ⟨rfl, rfl⟩ := List.cons.inj hsplit
          refine ⟨front, faulty, back, fault, rfl, ?_, hblank, hfault, ?_⟩
          · exact (List.forall_mem_cons.mp hfront).2
          · rw [List.length_cons, Nat.add_right_comm, Nat.add_assoc]
    · obtain ⟨hblank, hstates⟩ := not_or.mp hpass
      rw [Bool.not_eq_true] at hblank
      have hline : ∃ fault, Rule.ofLine line = .error fault := by
        cases hr : Rule.ofLine line with
        | error fault => exact ⟨fault, rfl⟩
        | ok rule => exact absurd (statesRule_iff.mpr ⟨rule, ofLine_eq_ok_iff.mp hr⟩) hstates
      obtain ⟨fault, hr⟩ := hline
      rw [ofLines_of_error hblank hr]
      constructor
      · intro h
        obtain rfl := Except.error.inj h
        exact ⟨[], line, lines, fault, rfl, by simp, hblank, ofLine_eq_error_iff.mp hr, rfl⟩
      · rintro ⟨front, faulty, back, fault', hsplit, hfront, -, hfault, rfl⟩
        cases front with
        | nil =>
          obtain ⟨rfl, -⟩ := List.cons.inj hsplit
          rw [(ofLine_eq_error_iff.mp hr).eq hfault]
          rfl
        | cons first front =>
          obtain ⟨rfl, -⟩ := List.cons.inj hsplit
          exact absurd (List.forall_mem_cons.mp hfront).1 hpass

/-- Rules that lines state give each left side an alternative, if only an empty one. -/
theorem alternativesFor_ne_nil (hstated : ∀ r ∈ rules, ∃ line, r.IsStatedBy line) {left : String}
    (hleft : left ∈ leftSides rules) : alternativesFor rules left ≠ [] := by
  obtain ⟨r, hr, rfl⟩ := mem_leftSides.mp hleft
  obtain ⟨line, hline⟩ := hstated r hr
  obtain ⟨alternative, halt⟩ := List.exists_mem_of_ne_nil _ hline.alternatives_ne_nil
  exact List.ne_nil_of_mem (mem_alternativesFor.mpr ⟨r, hr, rfl, halt⟩)

end Rules

namespace Grammar

variable {g : Grammar} {rules : List Rule}

/-! ## A whole grammar -/

theorem ofLines_of_rules (h : Rules.ofLines 1 lines = .ok rules) :
    ofLines lines = ofRules rules := by
  rw [ofLines, h]
  rfl

theorem ofLines_of_error {e : GrammarError} (h : Rules.ofLines 1 lines = .error e) :
    ofLines lines = .error e := by
  rw [ofLines, h]
  rfl

/-- The grammar of lines is the grammar of the rules that the lines state. -/
theorem ofLines_eq_ok_iff : ofLines lines = .ok g ↔ ∃ rules : List Rule,
    List.Forall₂ Rule.IsStatedBy (lines.filter (!isBlankText ·)) rules ∧ ofRules rules = .ok g := by
  constructor
  · intro h
    cases hr : Rules.ofLines 1 lines with
    | error e => simp [ofLines_of_error hr] at h
    | ok rules => exact ⟨rules, Rules.ofLines_eq_ok_iff.mp hr, ofLines_of_rules hr ▸ h⟩
  · rintro ⟨rules, hrules, hg⟩
    rw [ofLines_of_rules (Rules.ofLines_eq_ok_iff.mpr hrules), hg]

theorem exists_forall₂_isStatedBy_iff :
    (∃ rules : List Rule, List.Forall₂ Rule.IsStatedBy lines rules) ↔
      ∀ line ∈ lines, StatesRule line := by
  induction lines with
  | nil => simp
  | cons line lines ih =>
    rw [List.forall_mem_cons, ← ih, statesRule_iff]
    simp only [List.forall₂_cons_left_iff]
    constructor
    · rintro ⟨_, rule, rules, hrule, hrules, -⟩
      exact ⟨⟨rule, hrule⟩, rules, hrules⟩
    · rintro ⟨⟨rule, hrule⟩, rules, hrules⟩
      exact ⟨_, rule, rules, hrule, hrules, rfl⟩

/-- Every rule of lines is stated by one of them. -/
theorem exists_isStatedBy (h : List.Forall₂ Rule.IsStatedBy lines rules) :
    ∀ r ∈ rules, ∃ line, r.IsStatedBy line := by
  induction h with
  | nil => simp
  | cons hrule _ ih => exact List.forall_mem_cons.mpr ⟨⟨_, hrule⟩, ih⟩

theorem exists_ofLines_eq_ok_iff : (∃ g, ofLines lines = .ok g) ↔
    (∃ line ∈ lines, isBlankText line = false) ∧
      ∀ line ∈ lines, isBlankText line = false → StatesRule line := by
  have hmem (line : List Char) : line ∈ lines.filter (!isBlankText ·) ↔
      line ∈ lines ∧ isBlankText line = false := by
    simp
  have hlines : (∃ line ∈ lines, isBlankText line = false) ↔
      lines.filter (!isBlankText ·) ≠ [] := by
    simp [List.filter_eq_nil_iff]
  simp only [ofLines_eq_ok_iff]
  constructor
  · rintro ⟨g, rules, hrules, hok⟩
    have hne : rules ≠ [] := exists_ofRules_eq_ok_iff.mp ⟨g, hok⟩
    refine ⟨hlines.mpr fun hnil => hne ?_, fun line hl hblank => ?_⟩
    · rwa [hnil, List.forall₂_nil_left_iff] at hrules
    · exact exists_forall₂_isStatedBy_iff.mp ⟨rules, hrules⟩ line ((hmem line).mpr ⟨hl, hblank⟩)
  · rintro ⟨hsome, hall⟩
    obtain ⟨rules, hrules⟩ := exists_forall₂_isStatedBy_iff.mpr fun line hl =>
      hall line ((hmem line).mp hl).1 ((hmem line).mp hl).2
    have hne : rules ≠ [] := by
      rintro rfl
      exact hlines.mp hsome (List.forall₂_nil_right_iff.mp hrules)
    obtain ⟨g, hg⟩ := exists_ofRules_eq_ok_iff.mpr hne
    exact ⟨g, rules, hrules, hg⟩

theorem ofLines_eq_noRules_iff :
    ofLines lines = .error .noRules ↔ ∀ line ∈ lines, isBlankText line = true := by
  have hnil : (∀ line ∈ lines, isBlankText line = true) ↔ Rules.ofLines 1 lines = .ok [] := by
    rw [Rules.ofLines_eq_ok_iff, List.forall₂_nil_right_iff]
    simp [List.filter_eq_nil_iff]
  rw [hnil]
  cases hr : Rules.ofLines 1 lines with
  | ok rules => simp [ofLines_of_rules hr, ofRules_eq_error_iff]
  | error e =>
    obtain ⟨front, line, back, fault, -, -, -, -, rfl⟩ := Rules.ofLines_eq_error_iff.mp hr
    simp [ofLines_of_error hr]

theorem ofLines_eq_malformedRule_iff {number : Nat} :
    ofLines lines = .error (.malformedRule number fault) ↔
      Rules.ofLines 1 lines = .error (.malformedRule number fault) := by
  cases hr : Rules.ofLines 1 lines with
  | ok rules => simp [ofLines_of_rules hr, ofRules_eq_error_iff]
  | error e => simp [ofLines_of_error hr]

/-- Lines are a grammar exactly if some line is not blank and all such lines state rules;
the grammar is that of the rules, one for each such line. Without such a line there is no
rule. Else the first line that is neither blank nor a rule is reported, with its number
among all lines, and with the first check that goes wrong on it. -/
theorem ofLines_outcome (lines : List (List Char)) :
    ((∃ g, ofLines lines = .ok g) ↔ (∃ line ∈ lines, isBlankText line = false) ∧
      ∀ line ∈ lines, isBlankText line = false → StatesRule line) ∧
    (∀ g, ofLines lines = .ok g → ∃ rules : List Rule, ofRules rules = .ok g ∧
      List.Forall₂ Rule.IsStatedBy (lines.filter (!isBlankText ·)) rules) ∧
    (ofLines lines = .error .noRules ↔ ∀ line ∈ lines, isBlankText line = true) ∧
    ∀ number fault, ofLines lines = .error (.malformedRule number fault) ↔
      ∃ front line back, lines = front ++ line :: back ∧ number = front.length + 1 ∧
        (∀ l ∈ front, isBlankText l = true ∨ StatesRule l) ∧
        isBlankText line = false ∧ ¬StatesRule line ∧ fault.IsFirst line := by
  refine ⟨exists_ofLines_eq_ok_iff, fun g hg => ?_, ofLines_eq_noRules_iff,
    fun number fault => ?_⟩
  · obtain ⟨rules, hrules, hok⟩ := ofLines_eq_ok_iff.mp hg
    exact ⟨rules, hok, hrules⟩
  · rw [ofLines_eq_malformedRule_iff, Rules.ofLines_eq_error_iff]
    constructor
    · rintro ⟨front, line, back, fault', hsplit, hfront, hblank, hfault, heq⟩
      obtain ⟨rfl, rfl⟩ := GrammarError.malformedRule.inj heq
      exact ⟨front, line, back, hsplit, Nat.add_comm 1 _, hfront, hblank,
        fun hstates => hstates.not_fails fault hfault.1, hfault⟩
    · rintro ⟨front, line, back, hsplit, rfl, hfront, hblank, -, hfault⟩
      exact ⟨front, line, back, fault, hsplit, hfront, hblank, hfault, by rw [Nat.add_comm]⟩

end Grammar

end Lookahead
