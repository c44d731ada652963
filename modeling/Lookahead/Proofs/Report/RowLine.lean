import Lookahead.Grammar.RuleForm
import Lookahead.Proofs.Grammar.EmptyMarked
import Lookahead.Proofs.Grammar.RuleLines
import Lookahead.Proofs.Text.Layout

/-!
# A row on one line is a rule line

A row of the production report that came from rule lines has names that a line can show : the
left side is an identifier, and no symbol holds a blank, a bar or an arrow
(`ProductionRow.IsReadable`). Printed on one line, such a row states the rule it came from, but
that an empty alternative is now written by name (`isStatedBy_ruleText`).

The row is printed on one line, or on a line per alternative. Up to the number of spaces in front
of the bars, the second gives the first when its lines are put together (`toList_plainLine`,
`flatten_plainLines`), so one text stands for both (`ProductionRow.ruleText`).
-/

namespace Lookahead

open Text
open Rules (markAlternative)

/-! ## Names that a line can show -/

/-- A name that can stand for a symbol on the right of a line. -/
structure IsSymbolName (name : List Char) : Prop where
  ne_nil : name ≠ []
  not_isBlank : ∀ c ∈ name, isBlank c = false
  bar_not_mem : '|' ∉ name
  arrow_free : ¬arrow <:+: name

theorem isSymbolName_singleton {c : Char} (hblank : isBlank c = false) (hbar : c ≠ '|') :
    IsSymbolName [c] where
  ne_nil := List.cons_ne_nil c []
  not_isBlank := List.forall_mem_singleton.mpr hblank
  bar_not_mem := by simpa using hbar.symm
  arrow_free h := absurd h.length_le (by simp [arrow])

theorem isSymbolName_epsilonName : IsSymbolName epsilonName.toList := by
  rw [show epsilonName.toList = ['ε'] by decide]
  exact isSymbolName_singleton (by decide) (by decide)

theorem IsDefinable.not_isBlank {name : List Char} (h : IsDefinable name) :
    ∀ c ∈ name, isBlank c = false :=
  fun c hc => not_isBlank_of_isIdentifierChar (h.isIdentifier c hc)

/-- The symbols of a rule that a line states. -/
theorem Rule.IsStatedBy.isSymbolName {line : List Char} {rule : Rule} (h : rule.IsStatedBy line)
    {alternative : List String} (ha : alternative ∈ rule.alternatives) {name : String}
    (hn : name ∈ alternative) : IsSymbolName name.toList := by
  obtain ⟨before, after, harrow, -, -, rfl⟩ := isStatedBy_iff.mp h
  obtain ⟨piece, hpiece, rfl⟩ := List.mem_map.mp ha
  obtain ⟨w, hw, rfl⟩ := List.mem_map.mp hn
  rw [String.toList_ofList]
  have hin := infix_of_mem_words hw
  exact {
    ne_nil := ne_nil_of_mem_words hw
    not_isBlank := fun c hc => not_isBlank_of_mem_words hw hc
    bar_not_mem := fun hbar => not_mem_of_mem_splitOn hpiece (hin.subset hbar)
    arrow_free := fun hfree =>
      harrow.after_free (hfree.trans (hin.trans (infix_of_mem_splitOn hpiece))) }

theorem Rule.IsStatedBy.isDefinable {line : List Char} {rule : Rule} (h : rule.IsStatedBy line) :
    IsDefinable rule.left.toList := by
  obtain ⟨before, after, -, hdef, -, rfl⟩ := isStatedBy_iff.mp h
  rwa [String.toList_ofList]

namespace ProductionRow

/-- The row can be read back from a line. -/
structure IsReadable (row : ProductionRow) : Prop where
  left : IsDefinable row.left.toList
  rights_ne_nil : row.rights ≠ []
  symbols : ∀ right ∈ row.rights, ∀ name ∈ right, IsSymbolName name.toList

variable {row : ProductionRow} {right : List String}

/-! ## Alternatives -/

theorem alternativeText_eq (right : List String) :
    alternativeText right = " ".intercalate (markAlternative right) := by
  cases right <;> simp [alternativeText, markAlternative]

theorem toList_alternativeText (right : List String) : (alternativeText right).toList =
    [' '].intercalate ((markAlternative right).map String.toList) := by
  rw [alternativeText_eq, String.toList_intercalate]
  rfl

theorem isSymbolName_of_mem_markAlternative (h : ∀ name ∈ right, IsSymbolName name.toList) :
    ∀ name ∈ (markAlternative right).map String.toList, IsSymbolName name := by
  rw [List.forall_mem_map]
  unfold markAlternative
  split
  · exact List.forall_mem_singleton.mpr isSymbolName_epsilonName
  · exact h

/-- The alternative is read back word by word. -/
theorem words_alternativeText (h : ∀ name ∈ right, IsSymbolName name.toList) :
    (words (alternativeText right).toList).map String.ofList = markAlternative right := by
  rw [toList_alternativeText, words_intercalate fun name hname =>
    ⟨(isSymbolName_of_mem_markAlternative h name hname).ne_nil,
      (isSymbolName_of_mem_markAlternative h name hname).not_isBlank⟩]
  simp [Function.comp_def]

theorem mem_alternativeText (h : ∀ name ∈ right, IsSymbolName name.toList) {c : Char}
    (hc : c ∈ (alternativeText right).toList) : c = ' ' ∨ isBlank c = false ∧ c ≠ '|' := by
  rw [toList_alternativeText] at hc
  rcases mem_intercalate hc with hc | ⟨name, hname, hc⟩
  · exact Or.inl (List.mem_singleton.mp hc)
  · have hsymbol := isSymbolName_of_mem_markAlternative h name hname
    exact Or.inr ⟨hsymbol.not_isBlank c hc, fun hbar => hsymbol.bar_not_mem (hbar ▸ hc)⟩

theorem bar_not_mem_alternativeText (h : ∀ name ∈ right, IsSymbolName name.toList) :
    '|' ∉ (alternativeText right).toList := fun hbar => by
  simpa using mem_alternativeText h hbar

theorem arrow_free_alternativeText (h : ∀ name ∈ right, IsSymbolName name.toList) :
    ¬arrow <:+: (alternativeText right).toList := fun hfree => by
  rw [toList_alternativeText] at hfree
  obtain ⟨name, hname, hfree⟩ := infix_of_infix_intercalate (by decide) (by decide)
    (List.forall_mem_singleton.mpr (by decide)) hfree
  exact (isSymbolName_of_mem_markAlternative h name hname).arrow_free hfree

/-! ## The right side of a line -/

/-- What stands between two alternatives, with `gap` spaces in front of the bar. -/
def bar (gap : Nat) : List Char :=
  List.replicate gap ' ' ++ ['|', ' ']

theorem alternativesOfBody_bars (gap : Nat) {texts : List (List Char)} (hne : texts ≠ [])
    (hbar : ∀ text ∈ texts, '|' ∉ text) : alternativesOfBody (' ' :: (bar gap).intercalate texts) =
      texts.map fun text => (words text).map String.ofList := by
  induction texts with
  | nil => exact absurd rfl hne
  | cons text texts ih =>
    obtain ⟨htext, htexts⟩ := List.forall_mem_cons.mp hbar
    cases texts with
    | nil =>
      rw [List.intercalate_singleton, alternativesOfBody, List.splitOn_eq_singleton (by simpa)]
      simp [words_blank_cons isBlank_space]
    | cons next texts =>
      have hsplit : ' ' :: (bar gap).intercalate (text :: next :: texts) =
          (' ' :: (text ++ List.replicate gap ' ')) ++
            '|' :: ' ' :: (bar gap).intercalate (next :: texts) := by
        simp [bar]
      have hfree : '|' ∉ ' ' :: (text ++ List.replicate gap ' ') := by
        simpa [List.mem_replicate] using htext
      have hrest := ih (by simp) htexts
      rw [alternativesOfBody] at hrest
      rw [hsplit, alternativesOfBody, List.splitOn_append_cons_self_of_not_mem hfree, List.map_cons,
        hrest, words_blank_cons isBlank_space,
        words_append_blanks (isBlankText_replicate_space gap)]
      rfl

/-- A blank right side has no symbols. -/
theorem eq_nil_of_mem_alternativesOfBody {body : List Char} (h : isBlankText body = true)
    {alternative : List String} (ha : alternative ∈ alternativesOfBody body) : alternative = [] := by
  obtain ⟨piece, hpiece, rfl⟩ := List.mem_map.mp ha
  have hblank : isBlankText piece = true :=
    List.all_eq_true.mpr fun c hc =>
      List.all_eq_true.mp h c ((infix_of_mem_splitOn hpiece).subset hc)
  rw [words_of_isBlankText hblank]
  rfl

/-! ## The row as a line -/

variable (row) in
/-- The row on one line, with `pad` spaces at its start and `gap` spaces in front of each bar. -/
def ruleText (pad gap : Nat) : List Char :=
  (List.replicate pad ' ' ++ row.left.toList ++ [' ']) ++ arrow ++
    (' ' :: (bar gap).intercalate (row.rights.map fun right => (alternativeText right).toList))

variable {pad gap : Nat}

theorem trim_left (h : row.IsReadable) :
    trim (List.replicate pad ' ' ++ row.left.toList ++ [' ']) = row.left.toList :=
  trim_blanks_append (isBlankText_replicate_space pad) (isBlankText_replicate_space 1)
    h.left.not_isBlank h.left.ne_nil

theorem oneArrow_ruleText (h : row.IsReadable) : OneArrow (row.ruleText pad gap)
    (List.replicate pad ' ' ++ row.left.toList ++ [' '])
    (' ' :: (bar gap).intercalate (row.rights.map fun right => (alternativeText right).toList)) where
  eq := rfl
  before_free hfree := by
    have hdash := hfree.subset (show '-' ∈ arrow by decide)
    simp only [List.mem_append, List.mem_replicate, List.mem_singleton] at hdash
    rcases hdash with (⟨-, hdash⟩ | hdash) | hdash
    · exact absurd hdash (by decide)
    · have := h.left.isIdentifier _ hdash
      exact absurd this (by decide +kernel)
    · exact absurd hdash (by decide)
  after_free hfree := by
    have hsep : ∀ c ∈ bar gap, c ∉ arrow := by
      simp [bar, arrow, List.mem_replicate, or_imp, forall_and]
    rw [← List.nil_append (' ' :: _)] at hfree
    rcases infix_of_infix_append_cons (by decide) hfree with hfree | hfree
    · exact absurd (List.infix_nil.mp hfree) (by decide)
    obtain ⟨text, htext, hfree⟩ :=
      infix_of_infix_intercalate (by decide) (by simp [bar]) hsep hfree
    obtain ⟨right, hright, rfl⟩ := List.mem_map.mp htext
    exact arrow_free_alternativeText (h.symbols right hright) hfree

theorem alternativesOfBody_rights (h : row.IsReadable) : alternativesOfBody
    (' ' :: (bar gap).intercalate (row.rights.map fun right => (alternativeText right).toList)) =
      row.rights.map markAlternative := by
  rw [alternativesOfBody_bars gap (by simpa using h.rights_ne_nil), List.map_map]
  · exact List.map_congr_left fun right hright => words_alternativeText (h.symbols right hright)
  · exact List.forall_mem_map.mpr fun right hright =>
      bar_not_mem_alternativeText (h.symbols right hright)

/-- The line states the row, with empty alternatives written by name. -/
theorem isStatedBy_ruleText (h : row.IsReadable) :
    Rule.IsStatedBy (row.ruleText pad gap) ⟨row.left, row.rights.map markAlternative⟩ := by
  rw [isStatedBy_iff]
  refine ⟨_, _, oneArrow_ruleText h, ?_, ?_, ?_⟩
  · rw [trim_left h]
    exact h.left
  · refine Bool.eq_false_iff.mpr fun hblank => ?_
    obtain ⟨right, rest, hrights⟩ := List.exists_cons_of_ne_nil h.rights_ne_nil
    have hmem : markAlternative right ∈ row.rights.map markAlternative := by simp [hrights]
    rw [← alternativesOfBody_rights h] at hmem
    have hnil := eq_nil_of_mem_alternativesOfBody hblank hmem
    unfold markAlternative at hnil
    split at hnil <;> simp_all
  · rw [trim_left h, String.ofList_toList, alternativesOfBody_rights h]

/-- A row has no other blanks than spaces. -/
theorem eq_space_of_mem_ruleText (h : row.IsReadable) {c : Char} (hc : c ∈ row.ruleText pad gap)
    (hblank : isBlank c = true) : c = ' ' := by
  simp only [ruleText, List.mem_append, List.mem_cons, List.mem_replicate, List.not_mem_nil,
    or_false] at hc
  rcases hc with (((⟨-, hc⟩ | hc) | hc) | hc) | hc | hc
  · exact hc
  · simp [h.left.not_isBlank c hc] at hblank
  · exact hc
  · have : ∀ c ∈ arrow, isBlank c = false :=
      List.forall_mem_cons.mpr ⟨by decide, List.forall_mem_singleton.mpr (by decide)⟩
    simp [this c hc] at hblank
  · exact hc
  · rcases mem_intercalate hc with hc | ⟨text, htext, hc⟩
    · simp only [bar, List.mem_append, List.mem_replicate, List.mem_cons, List.not_mem_nil,
        or_false] at hc
      rcases hc with ⟨-, hc⟩ | rfl | hc
      · exact hc
      · exact absurd hblank (by decide)
      · exact hc
    · obtain ⟨right, hright, rfl⟩ := List.mem_map.mp htext
      refine (mem_alternativeText (h.symbols right hright) hc).elim id fun hother => ?_
      simp [hother.1] at hblank

end ProductionRow

end Lookahead
