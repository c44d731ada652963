import Lookahead.Proofs.LeftCorner.EmptyMarked
import Lookahead.Proofs.Report.RowLine

/-!
# Productions in plain text

The production report of a grammar that was read from lines is a text of rule lines again. With
every row on one line it is read as it stands (`lines_onePerLine`). With a line per alternative,
the lines that start with a bar have to be appended to the line before them first
(`lines_appendContinuations_plain`).

Every row states the rule it came from (`isReadable_productionReport`), with the empty alternative
written by name. So the text leads to the grammar with the marker in place of empty right sides,
which has the same symbols, the same sets and the same left recursion, and prints as before.

Both layouts are what is printed as long as the column can be padded (`plain?_eq_some`).

`ofText_plain` : reading what has been printed, for both layouts.
-/

namespace Lookahead

open Text
open Rules (markAlternative)

/-! ## Both layouts of a row -/

namespace ProductionRow

variable {row : ProductionRow} {width : Nat}

variable (row) in
/-- The spaces in front of a left side in a column of the given width. -/
def padding (width : Nat) : Nat :=
  width - row.left.toList.length

theorem toList_padLeft (width : Nat) (s : String) : (padLeft width s).toList =
    List.replicate (width - s.toList.length) ' ' ++ s.toList := by
  rw [padLeft, String.toList_ofList, List.leftpad]

theorem toList_plainLine (h : row.rights ≠ []) (width : Nat) :
    (row.plainLine width).toList = row.ruleText (row.padding width) 1 := by
  simp [plainLine, h, toList_padLeft, ruleText, padding, arrow, bar, Function.comp_def]

/-- Put together, the lines of a row are the row on one line, with wide gaps. -/
theorem flatten_plainLines (h : row.rights ≠ []) (width : Nat) :
    ((row.plainLines width).map String.toList).flatten =
      row.ruleText (row.padding width) (width + 2) := by
  obtain ⟨right, rest, hrights⟩ := List.exists_cons_of_ne_nil h
  have hgap : List.replicate (width + 2) ' ' = List.replicate width ' ' ++ [' ', ' '] :=
    List.replicate_add width 2 ' '
  simp [plainLines, hrights, toList_padLeft, ruleText, padding, arrow, bar, hgap,
    intercalate_cons_eq, List.flatMap, Function.comp_def]

/-- Every line of a row but the first is appended to the line before it. -/
theorem isContinued_plainLines (h : row.IsReadable) (width : Nat) :
    IsContinued ((row.plainLines width).map String.toList) := by
  obtain ⟨right, rest, hrights⟩ := List.exists_cons_of_ne_nil h.rights_ne_nil
  obtain ⟨c, cs, hleft⟩ := List.exists_cons_of_ne_nil h.left.ne_nil
  have hc : isIdentifierChar c = true := h.left.isIdentifier c (hleft ▸ .head _)
  have hspace : c ≠ ' ' := by
    rintro rfl
    simpa using not_isBlank_of_isIdentifierChar hc
  have hbar : c ≠ '|' := by
    rintro rfl
    exact absurd hc (by decide +kernel)
  rw [plainLines, hrights, List.map_cons, List.map_map]
  refine ⟨_, _, rfl, ?_, ?_⟩
  · rw [String.toList_append, String.toList_append, toList_padLeft, hleft, List.append_assoc,
      List.append_assoc, isContinuation_spaces_append]
    simp [isContinuation, List.dropWhile_cons_of_neg, hspace, hbar]
  · refine List.forall_mem_map.mpr fun right _ => ?_
    rw [Function.comp_apply, String.toList_append, String.toList_append, toList_padLeft,
      List.append_assoc, List.append_assoc, isContinuation_spaces_append]
    rfl

theorem plainLines_ne_nil (h : row.rights ≠ []) (width : Nat) : row.plainLines width ≠ [] := by
  obtain ⟨right, rest, hrights⟩ := List.exists_cons_of_ne_nil h
  simp [plainLines, hrights]

/-- Each of the lines of a row is one line. -/
theorem isLine_of_mem_plainLines (h : row.IsReadable) {width : Nat} {line : List Char}
    (hline : line ∈ (row.plainLines width).map String.toList) :
    IsLine line := by
  refine isLine_of_forall_isBlank ?_ fun c hc => ?_
  · obtain ⟨text, htext, rfl⟩ := List.mem_map.mp hline
    obtain ⟨right, rest, hrights⟩ := List.exists_cons_of_ne_nil h.rights_ne_nil
    rw [plainLines, hrights, List.mem_cons, List.mem_map] at htext
    rcases htext with rfl | ⟨right, -, rfl⟩ <;> simp
  · have hmem : c ∈ ((row.plainLines width).map String.toList).flatten :=
      List.mem_flatten.mpr ⟨line, hline, hc⟩
    rw [flatten_plainLines h.rights_ne_nil] at hmem
    exact eq_space_of_mem_ruleText h hmem

theorem isLine_ruleText (h : row.IsReadable) {pad gap : Nat} : IsLine (row.ruleText pad gap) :=
  isLine_of_forall_isBlank (by simp [ruleText]) fun _ => eq_space_of_mem_ruleText h

/-- Gaps of any width are alike up to runs of spaces. -/
theorem squeeze_ruleText (row : ProductionRow) (pad gap gap' : Nat) :
    squeeze (row.ruleText pad (gap + 1)) = squeeze (row.ruleText pad (gap' + 1)) := by
  have hbar (n : Nat) : squeeze (bar (n + 1)) = squeeze ([' '] ++ ['|', ' ']) :=
    squeeze_append_congr (squeeze_replicate n) rfl
  refine squeeze_append_congr rfl ?_
  rw [← List.singleton_append, ← List.singleton_append]
  exact squeeze_append_congr rfl
    (squeeze_intercalate_congr ((hbar gap).trans (hbar gap').symm) fun _ _ => rfl)

/-! ## Columns that can be padded -/

theorem plainLine?_eq_some (row : ProductionRow) (h : width ≤ maxWidth) :
    row.plainLine? width = some (row.plainLine width) := by
  simp [plainLine?, fits, h]

theorem plain?_eq_some (row : ProductionRow) (h : width ≤ maxWidth) :
    row.plain? width = some (row.plain width) := by
  simp [plain?, fits, h]

theorem plain?_eq_none (hrights : row.rights ≠ []) (h : maxWidth < width) :
    row.plain? width = none := by
  simp [plain?, fits, hrights, h]

end ProductionRow

/-! ## Both layouts of the report -/

namespace ProductionReport

variable {report : ProductionReport}

variable (report) in
/-- The report with every row on one line. -/
def onePerLine (width : Nat) : String :=
  joinLines (report.rows.map (·.plainLine width))

theorem plain?_eq_some (h : report.width ≤ maxWidth) : report.plain? = some report.plain := by
  rw [plain?, mapM_eq_some_map fun row _ => row.plain?_eq_some h]
  rfl

/-- The first row is in the way already, as every row has an alternative. -/
theorem plain?_eq_none (hrights : ∀ row ∈ report.rows, row.rights ≠ [])
    (h : maxWidth < report.width) : report.plain? = none := by
  cases hrows : report.rows with
  | nil => simp [width, hrows] at h
  | cons row rows =>
    have hrow : row.plain? report.width = none :=
      ProductionRow.plain?_eq_none (hrights row (hrows ▸ List.mem_cons_self)) h
    simp [plain?, hrows, List.mapM_cons, hrow]

/-- The text with each line that starts with a bar appended to the line before it. -/
def appendContinuations (text : String) : String :=
  joinLines ((Text.appendContinuations (lines text.toList)).map String.ofList)

theorem toList_joinLines (texts : List String) :
    (joinLines texts).toList = ['\n'].intercalate (texts.map String.toList) := by
  rw [joinLines, String.toList_intercalate]
  rfl

variable (hrows : ∀ row ∈ report.rows, row.IsReadable)
include hrows

theorem toList_onePerLine (width : Nat) : (report.onePerLine width).toList =
    ['\n'].intercalate (report.rows.map fun row => row.ruleText (row.padding width) 1) := by
  rw [onePerLine, toList_joinLines, List.map_map]
  exact congrArg _ (List.map_congr_left fun row hrow =>
    ProductionRow.toList_plainLine (hrows row hrow).rights_ne_nil width)

theorem lines_onePerLine (width : Nat) : lines (report.onePerLine width).toList =
    report.rows.map fun row => row.ruleText (row.padding width) 1 := by
  rw [toList_onePerLine hrows, lines_intercalate]
  exact List.forall_mem_map.mpr fun row hrow => ProductionRow.isLine_ruleText (hrows row hrow)

theorem toList_plain : report.plain.toList = ['\n'].intercalate
    (report.rows.map fun row => (row.plainLines report.width).map String.toList).flatten := by
  have hgroups : (report.rows.map (·.plain report.width)).map String.toList =
      (report.rows.map fun row => (row.plainLines report.width).map String.toList).map
        ['\n'].intercalate := by
    rw [List.map_map, List.map_map]
    exact List.map_congr_left fun row _ => toList_joinLines _
  rw [plain, toList_joinLines, hgroups, intercalate_map_intercalate]
  refine List.forall_mem_map.mpr fun row hrow => ?_
  simpa using ProductionRow.plainLines_ne_nil (hrows row hrow).rights_ne_nil report.width

theorem lines_plain : lines report.plain.toList =
    (report.rows.map fun row => (row.plainLines report.width).map String.toList).flatten := by
  rw [toList_plain hrows, lines_intercalate]
  intro line hline
  obtain ⟨group, hgroup, hline⟩ := List.mem_flatten.mp hline
  obtain ⟨row, hrow, rfl⟩ := List.mem_map.mp hgroup
  exact ProductionRow.isLine_of_mem_plainLines (hrows row hrow) hline

theorem toList_appendContinuations_plain : (appendContinuations report.plain).toList =
    ['\n'].intercalate (report.rows.map fun row =>
      row.ruleText (row.padding report.width) (report.width + 2)) := by
  rw [appendContinuations, lines_plain hrows, Text.appendContinuations_flatten, toList_joinLines]
  · simp only [List.map_map, Function.comp_def, String.toList_ofList]
    exact congrArg _ (List.map_congr_left fun row hrow =>
      ProductionRow.flatten_plainLines (hrows row hrow).rights_ne_nil report.width)
  · exact List.forall_mem_map.mpr fun row hrow =>
      ProductionRow.isContinued_plainLines (hrows row hrow) report.width

theorem lines_appendContinuations_plain : lines (appendContinuations report.plain).toList =
    report.rows.map fun row => row.ruleText (row.padding report.width) (report.width + 2) := by
  rw [toList_appendContinuations_plain hrows, lines_intercalate]
  exact List.forall_mem_map.mpr fun row hrow => ProductionRow.isLine_ruleText (hrows row hrow)

/-- Both layouts are alike up to runs of spaces. -/
theorem squeeze_appendContinuations_plain :
    squeeze (appendContinuations report.plain).toList =
      squeeze (report.onePerLine report.width).toList := by
  rw [toList_appendContinuations_plain hrows, toList_onePerLine hrows]
  exact squeeze_intercalate_congr rfl fun row _ => ProductionRow.squeeze_ruleText row _ _ _

/-- The lines state the rows, with empty alternatives written by name. -/
theorem ofLines_ruleTexts (pad : ProductionRow → Nat) (gap : Nat) :
    Grammar.ofLines (report.rows.map fun row => row.ruleText (pad row) gap) =
      Grammar.ofRules (Rules.markEmpty report.rules) := by
  have hsome : ∀ line ∈ report.rows.map fun row => row.ruleText (pad row) gap,
      (!isBlankText line) = true := by
    refine List.forall_mem_map.mpr fun row _ => ?_
    simp [isBlankText, ProductionRow.ruleText, arrow, show isBlank '-' = false by decide]
  have hrules : Rules.markEmpty report.rules =
      report.rows.map fun row => ⟨row.left, row.rights.map markAlternative⟩ := by
    rw [Rules.markEmpty, rules, List.map_map]
    rfl
  refine Grammar.ofLines_of_rules (Rules.ofLines_eq_ok_iff.mpr ?_)
  rw [List.filter_eq_self.mpr hsome, hrules, List.forall₂_map_left_iff, List.forall₂_map_right_iff,
    List.forall₂_same]
  exact fun row hrow => ProductionRow.isStatedBy_ruleText (hrows row hrow)

end ProductionReport

/-! ## Printing with the empty alternative written by name -/

/-- The row with every empty alternative written by name. -/
def ProductionRow.markEmpty (row : ProductionRow) : ProductionRow :=
  ⟨row.left, row.rights.map markAlternative⟩

/-- The report with every empty alternative written by name. -/
def ProductionReport.markEmpty (report : ProductionReport) : ProductionReport :=
  ⟨report.rows.map ProductionRow.markEmpty⟩

namespace ProductionRow

theorem alternativeText_markAlternative (right : List String) :
    alternativeText (markAlternative right) = alternativeText right := by
  cases right with
  | nil => decide
  | cons name rest => rfl

/-- In plain text the empty alternative is written by name anyway. -/
theorem plainLine_markEmpty (row : ProductionRow) (width : Nat) :
    row.markEmpty.plainLine width = row.plainLine width := by
  simp [plainLine, markEmpty, alternativeText_markAlternative, Function.comp_def]

theorem plainLines_markEmpty (row : ProductionRow) (width : Nat) :
    row.markEmpty.plainLines width = row.plainLines width := by
  cases hrights : row.rights <;>
    simp [plainLines, markEmpty, hrights, alternativeText_markAlternative, Function.comp_def]

end ProductionRow

namespace ProductionReport

theorem width_markEmpty (report : ProductionReport) : report.markEmpty.width = report.width := by
  simp [width, markEmpty, ProductionRow.markEmpty, Function.comp_def]

theorem onePerLine_markEmpty (report : ProductionReport) (width : Nat) :
    report.markEmpty.onePerLine width = report.onePerLine width := by
  simp [onePerLine, markEmpty, ProductionRow.plainLine_markEmpty, Function.comp_def]

theorem plain_markEmpty (report : ProductionReport) : report.markEmpty.plain = report.plain := by
  rw [plain, plain, width_markEmpty, markEmpty, List.map_map]
  simp only [Function.comp_def, ProductionRow.plain, ProductionRow.plainLines_markEmpty]

end ProductionReport

/-! ## Reading what has been printed -/

namespace Grammar

variable {g : Grammar} {rules : List Rule} {sourceLines : List (List Char)}

theorem spell_markRight (g : Grammar) (right : List Nat) :
    g.markEmpty.spell (markRight right) = markAlternative (g.spell right) := by
  cases right with
  | nil => rfl
  | cons i rest => simp [spell, markRight, markAlternative]

theorem productionReport_markEmpty (g : Grammar) :
    g.markEmpty.productionReport = g.productionReport.markEmpty := by
  simp [productionReport, ProductionReport.markEmpty, productionRow, ProductionRow.markEmpty,
    markEmpty, NonTerminal.markEmpty, Function.comp_def, ← spell_markRight]

variable (hstated : ∀ r ∈ rules, ∃ line, r.IsStatedBy line)
include hstated

theorem epsilonName_notMem_leftSides : epsilonName ∉ Rules.leftSides rules := fun hmem => by
  obtain ⟨r, hr, heq⟩ := Rules.mem_leftSides.mp hmem
  obtain ⟨line, hline⟩ := hstated r hr
  exact hline.isDefinable.ne_epsilon (by rw [String.ofList_toList, heq])

/-- The alternatives that stated rules give for a left side can be shown on a line. -/
theorem isReadable_alternativesFor {left : String} (hleft : left ∈ Rules.leftSides rules) :
    ProductionRow.IsReadable ⟨left, Rules.alternativesFor rules left⟩ := by
  refine ⟨?_, Rules.alternativesFor_ne_nil hstated hleft, fun right hright name hname => ?_⟩
  · obtain ⟨r, hr, rfl⟩ := Rules.mem_leftSides.mp hleft
    obtain ⟨line, hline⟩ := hstated r hr
    exact hline.isDefinable
  · obtain ⟨r', hr', -, halt⟩ := Rules.mem_alternativesFor.mp hright
    obtain ⟨line', hline'⟩ := hstated r' hr'
    exact hline'.isSymbolName halt hname

/-- The rows of a grammar of stated rules can be read back. -/
theorem isReadable_productionReport (h : ofRules rules = .ok g) :
    ∀ row ∈ g.productionReport.rows, row.IsReadable := by
  intro row hrow
  have hgrouped : (⟨row.left, row.rights⟩ : Rule) ∈ Rules.grouped rules :=
    rules_productionReport h ▸ List.mem_map_of_mem hrow
  obtain ⟨left, hleft, heq⟩ := List.mem_map.mp hgrouped
  obtain ⟨rfl, hrights⟩ := Rule.mk.inj heq
  have hread := isReadable_alternativesFor hstated hleft
  rwa [hrights] at hread

theorem ofRules_markEmpty_productionReport (h : ofRules rules = .ok g) :
    ofRules (Rules.markEmpty g.productionReport.rules) = .ok g.markEmpty := by
  rw [rules_productionReport h]
  refine ofRules_markEmpty ((ofRules_grouped rules).trans h) ?_
  rw [Rules.leftSides_grouped]
  exact epsilonName_notMem_leftSides hstated

omit hstated

open ProductionReport (appendContinuations)

/-- The plain production report of a grammar that was read from lines, with every row on one
line, or with the lines that start with a bar appended to those before them, is read as the
grammar with the marker in place of empty right sides. That grammar has the same symbols under
the same numbers and names, the same sets and left recursion, and prints as the first does. Both
layouts are what is printed, if their columns are not too wide for padding. -/
theorem ofText_plain (h : ofLines sourceLines = .ok g) (width : Nat) :
    ofText (g.productionReport.onePerLine width) = .ok g.markEmpty ∧
    ofText (appendContinuations g.productionReport.plain) = .ok g.markEmpty ∧
    (∀ i, g.markEmpty.symbol? i = (g.symbol? i).map Symbol.markEmpty) ∧
    (∀ name, g.markEmpty.indexOf? name = g.indexOf? name) ∧
    g.markEmpty.suspects = g.suspects ∧
    g.markEmpty.first = g.first ∧
    g.markEmpty.follow g.markEmpty.first = g.follow g.first ∧
    g.markEmpty.leftRecursion? = g.leftRecursion? ∧
    g.markEmpty.productionReport.onePerLine width = g.productionReport.onePerLine width ∧
    g.markEmpty.productionReport.plain = g.productionReport.plain ∧
    squeeze (g.markEmpty.productionReport.onePerLine g.productionReport.width).toList =
      squeeze (appendContinuations g.productionReport.plain).toList ∧
    (width ≤ maxWidth → ∀ row ∈ g.productionReport.rows,
      row.plainLine? width = some (row.plainLine width)) ∧
    (g.productionReport.width ≤ maxWidth →
      g.productionReport.plain? = some g.productionReport.plain) := by
  obtain ⟨rules, hstated, hok⟩ := ofLines_eq_ok_iff.mp h
  have hrules := exists_isStatedBy hstated
  have hrows := isReadable_productionReport hrules hok
  have hmark := ofRules_markEmpty_productionReport hrules hok
  have hsame := sameDerivations_markEmpty g
  have hwf := wellFormed_of_ofRules hok
  refine ⟨?_, ?_, g.symbol?_markEmpty, g.indexOf?_markEmpty, rfl,
    (hsame.first_eq hwf hwf.markEmpty).symm, (hsame.follow_eq hwf hwf.markEmpty).symm,
    g.leftRecursion?_markEmpty, ?_, ?_, ?_, fun hwidth row _ => row.plainLine?_eq_some hwidth,
    ProductionReport.plain?_eq_some⟩
  · rw [ofText, ProductionReport.lines_onePerLine hrows, ProductionReport.ofLines_ruleTexts hrows,
      hmark]
  · rw [ofText, ProductionReport.lines_appendContinuations_plain hrows,
      ProductionReport.ofLines_ruleTexts hrows, hmark]
  · rw [productionReport_markEmpty, ProductionReport.onePerLine_markEmpty]
  · rw [productionReport_markEmpty, ProductionReport.plain_markEmpty]
  · rw [productionReport_markEmpty, ProductionReport.onePerLine_markEmpty,
      ProductionReport.squeeze_appendContinuations_plain hrows]

/-- Lines with the two characters of the arrow as symbols, an empty alternative in front, one
left side on two lines, and a left side that has more bytes than characters. -/
def spacedLines : List (List Char) :=
  ["Sum -> | - > -".toList, "".toList, "é -> Sum\tε | Q".toList, " Sum->é".toList]

/-- The grammar of `spacedLines`. -/
def spacedGrammar : Grammar :=
  ⟨[⟨"Sum", [[], [4, 5, 4], [3]]⟩, ⟨"é", [[2, 0], [6]]⟩], ["-", ">", "Q"]⟩

/-- Both layouts of its report, and the grammar that they are read as. -/
theorem ofText_plain_spaced : ofLines spacedLines = .ok spacedGrammar ∧
    ofText "Sum -> ε | - > - | é\n  é -> Sum ε | Q" = .ok spacedGrammar.markEmpty ∧
    ofText "Sum -> ε     | - > -     | é\n  é -> Sum ε     | Q" = .ok spacedGrammar.markEmpty ∧
    spacedGrammar.markEmpty.leftRecursion? = spacedGrammar.leftRecursion? := by
  have hok : ofLines spacedLines = .ok spacedGrammar := by decide +kernel
  have hone : spacedGrammar.productionReport.onePerLine 3 =
      "Sum -> ε | - > - | é\n  é -> Sum ε | Q" := by decide +kernel
  have hplain : appendContinuations spacedGrammar.productionReport.plain =
      "Sum -> ε     | - > -     | é\n  é -> Sum ε     | Q" := by decide +kernel
  obtain ⟨htext, hfolded, -, -, -, -, -, hleft, -⟩ := ofText_plain hok 3
  exact ⟨hok, hone ▸ htext, hplain ▸ hfolded, hleft⟩

end Grammar

end Lookahead
