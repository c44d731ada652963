import Lookahead.Proofs.Latex
import Lookahead.Proofs.Report.Columns
import Lookahead.Proofs.Report.SetRows
import Lookahead.Proofs.Text.Separators

/-!
# LaTeX tables tell grammars apart

The list of productions and the table of both sets are read off their LaTeX text from the outside to
the inside. Rows end with a feed, and cells, alternatives and symbols are separated by tokens with
spaces around them. A symbol is written without blanks. It may hold the characters of the tokens,
but then it is written in another way (`isUncoded_mid`, `isUncoded_ampersand`), so that it is never
taken for one. What is left are the texts of single symbols, which say what the symbols are.

In a list of productions the macro for epsilon stands for the empty alternative and for the one
written with `ε`. So only the rows with empty alternatives written by name are read off
(`ProductionReport.latex_eq_iff`). In the table nothing is lost (`Summary.eq_of_latex`).

`Grammar.latex_determines` : both for grammars that were read from lines.
-/

namespace Lookahead

open Text Latex
open Rules (markAlternative)

variable {names names' : List String} {mark : Char}

/-! ## Tokens and symbols -/

theorem toList_newRow : newRow.toList = ['\\', '\\'] ++ '\n' :: [] := by decide

theorem isUncoded_backslash : IsUncoded ['\\'] :=
  ⟨⟨'\\', by decide, rfl⟩, by decide⟩

theorem isUncoded_mid : IsUncoded "\\mid".toList :=
  ⟨⟨'\\', by decide, by decide⟩, by decide⟩

theorem isUncoded_ampersand : IsUncoded ['&'] :=
  ⟨⟨'&', by decide, rfl⟩, by decide⟩

theorem notMem_of_not_isBlank {text : List Char} (hmark : isBlank mark = true)
    (h : ∀ x ∈ text, isBlank x = false) : mark ∉ text := fun hmem => by
  rw [h mark hmem] at hmark
  exact Bool.false_ne_true hmark

theorem notMem_symbolTexts (hmark : isBlank mark = true)
    (h : ∀ name ∈ names, IsSymbolName name.toList) : ∀ text ∈ symbolTexts names, mark ∉ text :=
  List.forall_mem_map.mpr fun name hname =>
    notMem_of_not_isBlank hmark (not_isBlank_of_mem_symbolChars (h name hname).not_isBlank)

theorem notMem_escape {name : String} (hmark : isBlank mark = true)
    (h : ∀ c ∈ name.toList, isBlank c = false) : mark ∉ (escape name).toList :=
  notMem_of_not_isBlank hmark (not_isBlank_of_mem_escape h)

theorem ne_of_mem_symbolTexts {text piece : List Char} (hpiece : piece ∈ symbolTexts names)
    (h : IsUncoded text) : piece ≠ text := by
  obtain ⟨name, -, rfl⟩ := List.mem_map.mp hpiece
  exact symbolChars_ne h name.toList

/-! ## The list of productions -/

namespace ProductionRow

variable {row row' : ProductionRow} {right right' : List String}

theorem alternativeLatex_markAlternative (right : List String) :
    alternativeLatex (markAlternative right) = alternativeLatex right := by
  cases right with
  | nil => decide
  | cons name rest => rfl

theorem toList_alternativeLatex (right : List String) : (alternativeLatex right).toList =
    (' ' :: ['\\'] ++ [' ']).intercalate (symbolTexts (markAlternative right)) := by
  cases right with
  | nil => decide
  | cons name rest => exact toList_symbols (name :: rest) " \\ "

theorem symbolTexts_markAlternative_ne_nil (right : List String) :
    symbolTexts (markAlternative right) ≠ [] := by
  cases right <;> exact List.cons_ne_nil _ _

/-- In LaTeX the empty alternative is written by the macro for its name anyway. -/
theorem latexColumns_markEmpty (row : ProductionRow) :
    row.markEmpty.latexColumns = row.latexColumns := by
  simp [latexColumns, latexWith, markEmpty, alternativeLatex_markAlternative, Function.comp_def]

/-! ### Alternatives -/

section Alternatives

variable (h : ∀ name ∈ right, IsSymbolName name.toList)
include h

theorem isSymbolName_markAlternative : ∀ name ∈ markAlternative right, IsSymbolName name.toList :=
  List.forall_mem_map.mp (isSymbolName_of_mem_markAlternative h)

/-- Cut at its spaces, an alternative gives the texts of its symbols, one piece for each. -/
theorem splitOn_symbolTexts : ∀ text ∈ symbolTexts (markAlternative right),
    text.splitOn ' ' = [text] := fun text htext =>
  List.splitOn_eq_singleton
    (notMem_symbolTexts isBlank_space (isSymbolName_markAlternative h) text htext)

theorem mid_notMem_splitOn_alternativeLatex :
    "\\mid".toList ∉ (alternativeLatex right).toList.splitOn ' ' := by
  intro hmem
  rw [toList_alternativeLatex,
    splitOn_intercalate_token (by decide) (symbolTexts_markAlternative_ne_nil right)] at hmem
  rcases mem_intercalate hmem with hmem | ⟨pieces, hpieces, hmem⟩
  · exact absurd hmem (by decide)
  · obtain ⟨text, htext, rfl⟩ := List.mem_map.mp hpieces
    rw [splitOn_symbolTexts h text htext, List.mem_singleton] at hmem
    exact ne_of_mem_symbolTexts htext isUncoded_mid hmem.symm

theorem backslash_notMem_splitOn_symbolTexts :
    ∀ text ∈ symbolTexts (markAlternative right), ['\\'] ∉ text.splitOn ' ' := by
  intro text htext hmem
  rw [splitOn_symbolTexts h text htext, List.mem_singleton] at hmem
  exact ne_of_mem_symbolTexts htext isUncoded_backslash hmem.symm

theorem feed_notMem_alternativeLatex : '\n' ∉ (alternativeLatex right).toList := by
  rw [toList_alternativeLatex]
  exact notMem_intercalate (by decide)
    (notMem_symbolTexts (by decide) (isSymbolName_markAlternative h))

theorem markAlternative_eq_of_alternativeLatex (h' : ∀ name ∈ right', IsSymbolName name.toList)
    (heq : (alternativeLatex right).toList = (alternativeLatex right').toList) :
    markAlternative right = markAlternative right' := by
  rw [toList_alternativeLatex, toList_alternativeLatex] at heq
  exact symbolTexts_injective <| eq_of_intercalate_token_eq (by decide)
    (backslash_notMem_splitOn_symbolTexts h) (backslash_notMem_splitOn_symbolTexts h')
    (symbolTexts_markAlternative_ne_nil right) (symbolTexts_markAlternative_ne_nil right') heq

end Alternatives

/-! ### Rows -/

theorem toList_latexColumns (h : row.rights ≠ []) : row.latexColumns.toList =
    (escape row.left).toList ++ ' ' :: ("& \\rightarrow &".toList ++
      (' ' :: "\\mid".toList ++ [' ']).intercalate
        (row.rights.map fun right => (alternativeLatex right).toList)) := by
  simp [latexColumns, latexWith, h, Function.comp_def]

theorem feed_notMem_latexColumns (h : row.IsReadable) : '\n' ∉ row.latexColumns.toList := by
  have hbody := notMem_intercalate (show '\n' ∉ ' ' :: "\\mid".toList ++ [' '] by decide)
    (List.forall_mem_map.mpr fun right hright =>
      feed_notMem_alternativeLatex (h.symbols right hright))
  rw [toList_latexColumns h.rights_ne_nil, List.mem_append, List.mem_cons, List.mem_append]
  rintro (hmem | hmem | hmem | hmem)
  · exact notMem_escape (by decide) h.left.not_isBlank hmem
  · exact absurd hmem (by decide)
  · exact absurd hmem (by decide)
  · exact hbody hmem

/-- The text of a row says what the row is, but for how its empty alternatives are written. -/
theorem markEmpty_eq_of_latexColumns (h : row.IsReadable) (h' : row'.IsReadable)
    (heq : row.latexColumns.toList = row'.latexColumns.toList) :
    row.markEmpty = row'.markEmpty := by
  have hspace {row : ProductionRow} (h : row.IsReadable) : ' ' ∉ (escape row.left).toList :=
    notMem_escape isBlank_space h.left.not_isBlank
  have hmid {row : ProductionRow} (h : row.IsReadable) :
      ∀ text ∈ row.rights.map fun right => (alternativeLatex right).toList,
        "\\mid".toList ∉ text.splitOn ' ' :=
    List.forall_mem_map.mpr fun right hright =>
      mid_notMem_splitOn_alternativeLatex (h.symbols right hright)
  rw [toList_latexColumns h.rights_ne_nil, toList_latexColumns h'.rights_ne_nil] at heq
  obtain ⟨hleft, hbody⟩ := append_cons_inj (hspace h) (hspace h') heq
  have htexts := eq_of_intercalate_token_eq (by decide) (hmid h) (hmid h')
    (by simpa using h.rights_ne_nil) (by simpa using h'.rights_ne_nil)
    (List.append_cancel_left hbody)
  have hrights : row.rights.map markAlternative = row'.rights.map markAlternative :=
    map_eq_of_map_eq (fun right hright right' hright' => markAlternative_eq_of_alternativeLatex
      (h.symbols right hright) (h'.symbols right' hright')) htexts
  rw [markEmpty, markEmpty, escape_injective (String.toList_injective hleft), hrights]

end ProductionRow

namespace ProductionReport

variable {report report' : ProductionReport}

theorem latex_markEmpty (report : ProductionReport) : report.markEmpty.latex = report.latex := by
  simp [latex, markEmpty, ProductionRow.latexColumns_markEmpty, Function.comp_def]

/-- The first line of the array. -/
def latexHead : String :=
  "\\[\\begin" ++ group "array" ++ group "cll"

/-- The last line of the array. -/
def latexFoot : String :=
  "\\end" ++ group "array" ++ "\\]"

theorem toList_latex (report : ProductionReport) : report.latex.toList =
    (['\\', '\\'] ++ '\n' :: []).intercalate
      (latexHead.toList :: (report.rows.map fun row => row.latexColumns.toList) ++
        [latexFoot.toList]) := by
  rw [latex, String.toList_intercalate, toList_newRow, List.map_append, List.map_append,
    List.map_map]
  rfl

theorem feed_notMem_lines (h : ∀ row ∈ report.rows, row.IsReadable) :
    ∀ line ∈ latexHead.toList :: (report.rows.map fun row => row.latexColumns.toList) ++
        [latexFoot.toList], '\n' ∉ line := by
  rw [List.cons_append, List.forall_mem_cons, List.forall_mem_append, List.forall_mem_map,
    List.forall_mem_singleton]
  exact ⟨by decide, fun row hrow => ProductionRow.feed_notMem_latexColumns (h row hrow), by decide⟩

/-- Two lists of productions have the same text exactly if they have the same rows, with empty
alternatives written by name. -/
theorem latex_eq_iff (h : ∀ row ∈ report.rows, row.IsReadable)
    (h' : ∀ row ∈ report'.rows, row.IsReadable) :
    report.latex = report'.latex ↔ report.markEmpty = report'.markEmpty := by
  constructor
  · intro heq
    have htexts := (toList_latex report).symm.trans (heq ▸ toList_latex report')
    have hlines := eq_of_intercalate_around_eq (by decide) (by decide) (feed_notMem_lines h)
      (feed_notMem_lines h') (by simp) (by simp) htexts
    have hrows := List.append_cancel_right (List.cons.inj hlines).2
    have hmarked := map_eq_of_map_eq (fun row hrow row' hrow' =>
      ProductionRow.markEmpty_eq_of_latexColumns (h row hrow) (h' row' hrow')) hrows
    rw [markEmpty, markEmpty, hmarked]
  · intro heq
    rw [← latex_markEmpty, heq, latex_markEmpty]

end ProductionReport

/-! ## The table of both sets -/

/-- What stands between two symbols of a set. -/
theorem toList_setSeparator : "\\ ".toList = ['\\'] ++ ' ' :: [] := by decide

section Members

variable (h : ∀ name ∈ names, IsSymbolName name.toList)
include h

theorem nil_notMem_symbolTexts : [] ∉ symbolTexts names := by
  intro hmem
  obtain ⟨name, hname, hnil⟩ := List.mem_map.mp hmem
  exact symbolChars_ne_nil (h name hname).ne_nil hnil

theorem ampersand_notMem_splitOn_symbols :
    ['&'] ∉ (symbols names "\\ ").toList.splitOn ' ' := by
  intro hmem
  rw [toList_symbols, toList_setSeparator] at hmem
  rcases mem_splitOn_intercalate (by decide) (notMem_symbolTexts isBlank_space h) hmem with
    hnil | ⟨text, htext, heq | heq⟩
  · exact List.cons_ne_nil _ _ hnil
  · exact ne_of_mem_symbolTexts htext isUncoded_ampersand heq.symm
  · simpa using congrArg List.getLast? heq

theorem feed_notMem_symbols : '\n' ∉ (symbols names "\\ ").toList := by
  rw [toList_symbols]
  exact notMem_intercalate (by decide) (notMem_symbolTexts (by decide) h)

/-- The text of a set says which names are in the list, also if there are none. -/
theorem eq_of_symbols (h' : ∀ name ∈ names', IsSymbolName name.toList)
    (heq : (symbols names "\\ ").toList = (symbols names' "\\ ").toList) : names = names' := by
  rw [toList_symbols, toList_symbols, toList_setSeparator] at heq
  have hnil : symbolTexts names = [] ↔ symbolTexts names' = [] := by
    rw [← intercalate_eq_nil_iff (nil_notMem_symbolTexts h), heq,
      intercalate_eq_nil_iff (nil_notMem_symbolTexts h')]
  refine symbolTexts_injective ?_
  by_cases hempty : symbolTexts names = []
  · rw [hempty, hnil.mp hempty]
  · exact eq_of_intercalate_around_eq (by decide) (by decide) (notMem_symbolTexts isBlank_space h)
      (notMem_symbolTexts isBlank_space h') hempty (hempty ∘ hnil.mpr) heq

end Members

namespace SummaryRow

variable {row row' : SummaryRow}

/-- The names of the row can be told apart from what stands around them. -/
structure IsReadable (row : SummaryRow) : Prop where
  name : ∀ c ∈ row.name.toList, isBlank c = false
  first : ∀ name ∈ row.first, IsSymbolName name.toList
  follow : ∀ name ∈ row.follow, IsSymbolName name.toList

/-- The texts of the four columns. -/
def cells (row : SummaryRow) : List (List Char) :=
  [(escape row.name).toList, row.nullableWord.toList, (symbols row.first "\\ ").toList,
    (symbols row.follow "\\ ").toList]

theorem toList_latex (row : SummaryRow) :
    row.latex.toList = (' ' :: ['&'] ++ [' ']).intercalate row.cells := by
  rw [latex, String.toList_intercalate]
  rfl

theorem nullable_eq_of_nullableWord (h : row.nullableWord = row'.nullableWord) :
    row.nullable = row'.nullable := by
  unfold nullableWord at h
  split at h <;> split at h <;> simp_all

theorem forall_mem_cells {p : List Char → Prop} : (∀ cell ∈ row.cells, p cell) ↔
    p (escape row.name).toList ∧ p row.nullableWord.toList ∧
      p (symbols row.first "\\ ").toList ∧ p (symbols row.follow "\\ ").toList := by
  simp [cells]

theorem nullableWord_mem (row : SummaryRow) : row.nullableWord ∈ ["true", "false"] := by
  unfold nullableWord
  split <;> simp

theorem ampersand_notMem_splitOn_cells (h : row.IsReadable) :
    ∀ cell ∈ row.cells, ['&'] ∉ cell.splitOn ' ' := by
  have hwords : ∀ word ∈ ["true", "false"], ['&'] ∉ word.toList.splitOn ' ' := by decide
  refine forall_mem_cells.mpr ⟨?_, hwords _ (nullableWord_mem row),
    ampersand_notMem_splitOn_symbols h.first, ampersand_notMem_splitOn_symbols h.follow⟩
  rw [List.splitOn_eq_singleton (notMem_escape isBlank_space h.name), List.mem_singleton]
  exact (escape_ne isUncoded_ampersand (by decide) row.name).symm

theorem feed_notMem_latex (h : row.IsReadable) : '\n' ∉ row.latex.toList := by
  have hwords : ∀ word ∈ ["true", "false"], '\n' ∉ word.toList := by decide
  rw [toList_latex]
  exact notMem_intercalate (by decide) <| forall_mem_cells.mpr
    ⟨notMem_escape (by decide) h.name, hwords _ (nullableWord_mem row),
      feed_notMem_symbols h.first, feed_notMem_symbols h.follow⟩

/-- The text of a row says what the row is. -/
theorem eq_of_latex (h : row.IsReadable) (h' : row'.IsReadable)
    (heq : row.latex.toList = row'.latex.toList) : row = row' := by
  rw [toList_latex, toList_latex] at heq
  have hcells := eq_of_intercalate_token_eq (by decide) (ampersand_notMem_splitOn_cells h)
    (ampersand_notMem_splitOn_cells h') (List.cons_ne_nil _ _) (List.cons_ne_nil _ _) heq
  simp only [cells, List.cons.injEq, and_true] at hcells
  obtain ⟨hname, hword, hfirst, hfollow⟩ := hcells
  have hnames := escape_injective (String.toList_injective hname)
  have hflags := nullable_eq_of_nullableWord (String.toList_injective hword)
  have hfirsts := eq_of_symbols h.first h'.first hfirst
  have hfollows := eq_of_symbols h.follow h'.follow hfollow
  cases row
  cases row'
  simp_all

end SummaryRow

namespace Summary

variable {report report' : Summary}

/-- The lines in front of the rows. -/
def latexHead : String :=
  "\\begin" ++ group "tabular" ++ group "c|c|c|c" ++ "\n"
    ++ "Symbol & Nullable & First & Follow\\\\\\hline\n"

/-- The end of the last row with the line behind it. -/
def latexFoot : String :=
  newRow ++ "\\end" ++ group "tabular"

theorem toList_latex (report : Summary) : report.latex.toList =
    latexHead.toList ++ ((['\\', '\\'] ++ '\n' :: [' ']).intercalate
      (report.rows.map fun row => row.latex.toList) ++ latexFoot.toList) := by
  have hparts : report.latex = latexHead ++
      ((newRow ++ " ").intercalate (report.rows.map (·.latex)) ++ latexFoot) := by
    simp only [latex, latexHead, latexFoot, String.append_assoc]
  have hsep : (newRow ++ " ").toList = ['\\', '\\'] ++ '\n' :: [' '] := by decide
  rw [hparts, String.toList_append, String.toList_append, String.toList_intercalate, hsep,
    List.map_map]
  rfl

/-- The text of a table says what its rows are. -/
theorem eq_of_latex (h : ∀ row ∈ report.rows, row.IsReadable)
    (h' : ∀ row ∈ report'.rows, row.IsReadable) (hne : report.rows ≠ []) (hne' : report'.rows ≠ [])
    (heq : report.latex = report'.latex) : report = report' := by
  have htexts := (toList_latex report).symm.trans (heq ▸ toList_latex report')
  have hrows := eq_of_intercalate_around_eq (by decide) (by decide)
    (List.forall_mem_map.mpr fun row hrow => SummaryRow.feed_notMem_latex (h row hrow))
    (List.forall_mem_map.mpr fun row hrow => SummaryRow.feed_notMem_latex (h' row hrow))
    (by simpa using hne) (by simpa using hne')
    (List.append_cancel_right (List.append_cancel_left htexts))
  have hsame := map_eq_of_map_eq (f := id) (fun row hrow row' hrow' =>
    SummaryRow.eq_of_latex (h row hrow) (h' row' hrow')) hrows
  rw [List.map_id, List.map_id] at hsame
  cases report
  cases report'
  exact congrArg mk hsame

end Summary

/-! ## Grammars that were read from lines -/

theorem isSymbolName_endMarkName : IsSymbolName endMarkName.toList := by
  rw [show endMarkName.toList = ['$'] by decide]
  exact isSymbolName_singleton (by decide) (by decide)

namespace Grammar

variable {g g' : Grammar} {rules : List Rule} {set : IndexSet} {i : Nat} {name : String}
  {sourceLines sourceLines' : List (List Char)}

section

variable (hstated : ∀ r ∈ rules, ∃ line, r.IsStatedBy line) (h : ofRules rules = .ok g)
include hstated h

theorem isSymbolName_of_isTerminal (hi : g.IsTerminal i) : IsSymbolName (g.name i).toList := by
  obtain ⟨left, hleft, right, hright, hname⟩ :=
    Rules.mem_rightNames.mp (Rules.mem_terminalNames.mp (name_mem_terminalNames h hi)).1
  exact (isReadable_alternativesFor hstated hleft).symbols right hright _ hname

theorem isSymbolName_of_mem_memberNames (hset : g.IsReported set)
    (hname : name ∈ g.memberNames set) : IsSymbolName name.toList := by
  simp only [memberNames, List.mem_append, List.mem_ite_nil_right, List.mem_singleton] at hname
  rcases hname with (hname | ⟨-, rfl⟩) | ⟨-, rfl⟩
  · obtain ⟨k, hk, heps, hend, rfl⟩ := mem_symbolNames.mp hname
    rcases hset.cases (wellFormed_of_ofRules h) hk with heq | heq | ht
    · exact absurd heq heps
    · exact absurd heq hend
    · exact isSymbolName_of_isTerminal hstated h ht
  · exact isSymbolName_endMarkName
  · exact isSymbolName_epsilonName

theorem isReadable_summary : ∀ row ∈ (g.summary g.analysis).rows, row.IsReadable := by
  intro row hrow
  obtain ⟨i, hi, rfl⟩ := List.mem_map.mp hrow
  have hi := g.mem_nonTerminalIndexes.mp hi
  obtain ⟨nt, hnt, hname⟩ := exists_nonTerminal_name hi
  have hleft : IsDefinable nt.name.toList :=
    (isReadable_productionReport hstated h (g.productionRow nt) (List.mem_map_of_mem hnt)).left
  exact {
    name := fun c hc => hleft.not_isBlank c (hname ▸ hc)
    first := fun _ => isSymbolName_of_mem_memberNames hstated h ⟨i, hi, Or.inl rfl⟩
    follow := fun _ => isSymbolName_of_mem_memberNames hstated h ⟨i, hi, Or.inr rfl⟩ }

omit hstated in
theorem rows_summary_ne_nil : (g.summary g.analysis).rows ≠ [] := by
  have hne := (wellFormed_of_ofRules h).nonTerminals_ne_nil
  rw [← List.length_pos_iff] at hne ⊢
  simpa [summary, nonTerminalIndexes] using hne

end

/-- The lists of productions of two grammars that were read from lines have the same text in LaTeX
exactly if they have the same left sides in the same order with the same alternatives, where an
empty alternative counts as the one written with `ε`. If their tables have the same text, then they
have the same rows, with the names, the flags and the lists of both sets. -/
theorem latex_determines (h : ofLines sourceLines = .ok g) (h' : ofLines sourceLines' = .ok g') :
    (g.productionReport.latex = g'.productionReport.latex ↔
      g.productionReport.markEmpty = g'.productionReport.markEmpty) ∧
    ((g.summary g.analysis).latex = (g'.summary g'.analysis).latex →
      g.summary g.analysis = g'.summary g'.analysis) := by
  obtain ⟨rules, hrules, hok⟩ := ofLines_eq_ok_iff.mp h
  obtain ⟨rules', hrules', hok'⟩ := ofLines_eq_ok_iff.mp h'
  have hstated := exists_isStatedBy hrules
  have hstated' := exists_isStatedBy hrules'
  exact ⟨ProductionReport.latex_eq_iff (isReadable_productionReport hstated hok)
      (isReadable_productionReport hstated' hok'),
    Summary.eq_of_latex (isReadable_summary hstated hok) (isReadable_summary hstated' hok')
      (rows_summary_ne_nil hok) (rows_summary_ne_nil hok')⟩

/-- Lines with two dashes, an epsilon inside a name and the tokens of the tables as symbols. -/
def dashLines : List (List Char) :=
  ["S -> | -- ε- \\mid & T".toList, "T -> & \\".toList]

/-- The lines with the empty alternative written by name. -/
def markedDashLines : List (List Char) :=
  ["S -> ε | -- ε- \\mid & T".toList, "T -> & \\".toList]

/-- The grammar of `dashLines`. -/
def dashGrammar : Grammar :=
  ⟨[⟨"S", [[], [4, 5, 6, 7, 3]]⟩, ⟨"T", [[7, 8]]⟩], ["--", "ε-", "\\mid", "&", "\\"]⟩

/-- Both grammars have the same text, and the rows differ in the empty alternative only. -/
theorem latex_determines_dashes : ofLines dashLines = .ok dashGrammar ∧
    ofLines markedDashLines = .ok dashGrammar.markEmpty ∧
    dashGrammar.productionReport ≠ dashGrammar.markEmpty.productionReport ∧
    dashGrammar.productionReport.latex = dashGrammar.markEmpty.productionReport.latex ∧
    dashGrammar.summary dashGrammar.analysis =
      dashGrammar.markEmpty.summary dashGrammar.markEmpty.analysis := by
  have hok : ofLines dashLines = .ok dashGrammar := by decide +kernel
  have hok' : ofLines markedDashLines = .ok dashGrammar.markEmpty := by decide +kernel
  obtain ⟨hproductions, hsummary⟩ := latex_determines hok hok'
  exact ⟨hok, hok', by decide +kernel, hproductions.mpr (by decide +kernel),
    hsummary (by cbv)⟩

end Grammar

end Lookahead
