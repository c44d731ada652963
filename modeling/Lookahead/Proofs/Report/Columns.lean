import Mathlib.Order.Bounds.Basic
import Lookahead.Proofs.Report.JsonSummary
import Lookahead.Proofs.Report.PlainProductions

/-!
# The columns of the production report

In plain text every alternative takes a line of its own, and all lines have a column in front that
is as wide as the longest left side (`lines_plain_shows`). The width is counted in bytes, and the
padding in characters. A text has no more characters than bytes (`length_le_utf8ByteSize`), so that
every left side fits into the column, and the arrows and bars behind it stand below each other.

The lines of one non-terminal are looked up by place (`exists_plainLines_shows`). Those of several
follow each other in the order of the productions, since no two non-terminals have a number in
common (`exists_flatMap_shows`).
-/

namespace Lookahead

open Text

/-- A text has a byte at least for each of its characters. -/
theorem length_le_utf8ByteSize (s : String) : s.toList.length ≤ s.utf8ByteSize := by
  suffices h : ∀ cs : List Char, cs.length ≤ (String.ofList cs).utf8ByteSize by
    simpa using h s.toList
  intro cs
  induction cs with
  | nil => exact Nat.zero_le _
  | cons c cs ih =>
    have hpos := c.utf8Size_pos
    rw [String.ofList_cons, String.utf8ByteSize_append, String.utf8ByteSize_singleton,
      List.length_cons]
    omega

/-- A column of `width` characters, with `text` at its right end and spaces in front. -/
def IsColumn (width : Nat) (text column : List Char) : Prop :=
  column.length = width ∧ ∃ pad, column = List.replicate pad ' ' ++ text

theorem isColumn_padLeft {width : Nat} {s : String} (h : s.toList.length ≤ width) :
    IsColumn width s.toList (padLeft width s).toList := by
  rw [ProductionRow.toList_padLeft]
  refine ⟨?_, _, rfl⟩
  rw [List.length_append, List.length_replicate]
  omega

/-- The line shows the alternative `right` of `left` behind a column of `width` characters. If it
is the first one, the left side stands in the column and an arrow behind it. Otherwise the column is
empty and a bar stands there. -/
def ShowsAlternative (width : Nat) (left : String) (right : List String) (first : Prop)
    (line : List Char) : Prop :=
  ∃ column mark text, line = column ++ mark ++ text ∧
    (first → IsColumn width left.toList column ∧ mark = " -> ".toList) ∧
    (¬first → IsColumn width [] column ∧ mark = "  | ".toList) ∧
    text = if right = [] then ['ε'] else [' '].intercalate (right.map String.toList)

theorem ShowsAlternative.congr {width : Nat} {left : String} {right : List String}
    {first first' : Prop} {line : List Char} (h : ShowsAlternative width left right first line)
    (hfirst : first ↔ first') : ShowsAlternative width left right first' line := by
  rwa [← propext hfirst]

/-! ## The lines of a row -/

namespace ProductionRow

variable {row : ProductionRow} {width k : Nat} {right : List String}

theorem length_plainLines (row : ProductionRow) (width : Nat) :
    (row.plainLines width).length = row.rights.length := by
  unfold plainLines
  cases row.rights <;> simp

theorem getElem?_plainLines (row : ProductionRow) (width k : Nat) : (row.plainLines width)[k]? =
    row.rights[k]?.map fun right => padLeft width (if k = 0 then row.left else "") ++
      (if k = 0 then " -> " else "  | ") ++ alternativeText right := by
  unfold plainLines
  cases row.rights with
  | nil => rfl
  | cons first rest =>
    cases k with
    | zero => rfl
    | succ k => simp

theorem toList_alternativeText_eq_ite (right : List String) : (alternativeText right).toList =
    if right = [] then ['ε'] else [' '].intercalate (right.map String.toList) := by
  rw [toList_alternativeText]
  cases right with
  | nil => decide
  | cons name rest => rfl

/-- Where the left side fits into the column, each alternative is shown at its place. -/
theorem exists_plainLines_shows (h : row.left.toList.length ≤ width)
    (hright : row.rights[k]? = some right) :
    ∃ line, ((row.plainLines width).map String.toList)[k]? = some line ∧
      ShowsAlternative width row.left right (k = 0) line := by
  rw [List.getElem?_map, getElem?_plainLines, hright]
  refine ⟨_, rfl, (padLeft width (if k = 0 then row.left else "")).toList,
    (if k = 0 then " -> " else "  | ").toList, _, ?_, fun hk => ?_, fun hk => ?_,
    toList_alternativeText_eq_ite right⟩
  · rw [String.toList_append, String.toList_append]
  · rw [if_pos hk, if_pos hk]
    exact ⟨isColumn_padLeft h, rfl⟩
  · rw [if_neg hk, if_neg hk]
    exact ⟨isColumn_padLeft (Nat.zero_le _), rfl⟩

end ProductionRow

/-! ## The lines of a grammar -/

namespace Grammar

variable {g : Grammar} {width k i : Nat} {indexes : List Nat} {p : Production}

theorem rows_productionReport (g : Grammar) : g.productionReport.rows =
    g.nonTerminalIndexes.map fun i => ⟨g.name i, (g.alternatives i).map g.spell⟩ := by
  refine List.ext_getElem (by simp [productionReport, nonTerminalIndexes]) fun k hk _ => ?_
  rw [productionReport, List.length_map] at hk
  simp [productionReport, productionRow, nonTerminalIndexes, alternatives, nonTerminal?, hk,
    name_start_add (List.getElem?_eq_getElem hk)]

theorem exists_nonTerminal_name (hi : g.IsNonTerminal i) :
    ∃ nt ∈ g.nonTerminals, nt.name = g.name i := by
  obtain ⟨k, rfl⟩ := Nat.exists_eq_add_of_le hi.1
  have hk : k < g.nonTerminals.length := Nat.lt_of_add_lt_add_left hi.2
  exact ⟨_, List.getElem_mem hk, (name_start_add (List.getElem?_eq_getElem hk)).symm⟩

/-- The lines of the row for the non-terminal `i`. -/
def linesOf (g : Grammar) (width i : Nat) : List (List Char) :=
  (ProductionRow.plainLines ⟨g.name i, (g.alternatives i).map g.spell⟩ width).map String.toList

/-- The productions of the non-terminal `i`. -/
def productionsOf (g : Grammar) (i : Nat) : List Production :=
  (g.alternatives i).map (Production.mk i)

theorem length_linesOf (g : Grammar) (width i : Nat) :
    (g.linesOf width i).length = (g.productionsOf i).length := by
  simp [linesOf, productionsOf, ProductionRow.length_plainLines]

theorem left_of_mem_productionsOf (h : p ∈ g.productionsOf i) : p.left = i := by
  obtain ⟨right, -, rfl⟩ := List.mem_map.mp h
  rfl

theorem exists_linesOf_shows (h : (g.name i).toList.length ≤ width)
    (hp : (g.productionsOf i)[k]? = some p) : ∃ line, (g.linesOf width i)[k]? = some line ∧
      ShowsAlternative width (g.name p.left) (g.spell p.right) (k = 0) line := by
  rw [productionsOf, List.getElem?_map, Option.map_eq_some_iff] at hp
  obtain ⟨right, hright, rfl⟩ := hp
  exact ProductionRow.exists_plainLines_shows h (by rw [List.getElem?_map, hright]; rfl)

/-- The productions of several non-terminals are shown one after the other. A production is the
first of its non-terminal if there is none of that non-terminal in front of it. -/
theorem exists_flatMap_shows (hnodup : indexes.Nodup)
    (hwidth : ∀ i ∈ indexes, (g.name i).toList.length ≤ width)
    (hp : (indexes.flatMap g.productionsOf)[k]? = some p) :
    ∃ line, (indexes.flatMap (g.linesOf width))[k]? = some line ∧
      ShowsAlternative width (g.name p.left) (g.spell p.right)
        (∀ q ∈ (indexes.flatMap g.productionsOf).take k, q.left ≠ p.left) line := by
  induction indexes generalizing k with
  | nil => simp at hp
  | cons i indexes ih =>
    obtain ⟨hnew, hnodup⟩ := List.nodup_cons.mp hnodup
    obtain ⟨hi, hwidth⟩ := List.forall_mem_cons.mp hwidth
    rw [List.flatMap_cons] at hp
    rw [List.flatMap_cons, List.flatMap_cons]
    rcases Nat.lt_or_ge k (g.productionsOf i).length with hlt | hge
    · -- among the productions of `i` only the first has none in front
      rw [List.getElem?_append_left hlt] at hp
      obtain ⟨line, hline, hshows⟩ := exists_linesOf_shows hi hp
      refine ⟨line, ?_, hshows.congr ⟨?_, fun hfirst => ?_⟩⟩
      · rwa [List.getElem?_append_left (by rwa [length_linesOf])]
      · rintro rfl
        simp
      · by_contra hk
        have hmem : (g.productionsOf i)[0] ∈
            (g.productionsOf i ++ indexes.flatMap g.productionsOf).take k := by
          rw [List.take_append_of_le_length hlt.le]
          exact List.mem_take_iff_getElem.mpr ⟨0, by omega, rfl⟩
        refine hfirst _ hmem ?_
        rw [left_of_mem_productionsOf (List.getElem_mem _),
          left_of_mem_productionsOf (List.mem_of_getElem? hp)]
    · -- those of `i` are no productions of a later non-terminal
      rw [List.getElem?_append_right hge] at hp
      obtain ⟨line, hline, hshows⟩ := ih hnodup hwidth hp
      refine ⟨line, ?_, hshows.congr ?_⟩
      · rwa [List.getElem?_append_right (by rwa [length_linesOf]), length_linesOf]
      · obtain ⟨j, hj, hpj⟩ := List.mem_flatMap.mp (List.mem_of_getElem? hp)
        have hother : ∀ q ∈ g.productionsOf i, q.left ≠ p.left := fun q hq heq => by
          rw [left_of_mem_productionsOf hq, left_of_mem_productionsOf hpj] at heq
          exact hnew (heq ▸ hj)
        rw [List.take_append, List.take_of_length_le hge, List.forall_mem_append,
          and_iff_right hother]

variable {sourceLines : List (List Char)}

/-- The width of the report is the length of the longest left side in bytes. -/
theorem isGreatest_width (h : g.nonTerminals ≠ []) :
    IsGreatest {n | ∃ nt ∈ g.nonTerminals, nt.name.utf8ByteSize = n} g.productionReport.width := by
  have hsizes : g.productionReport.rows.map (·.left.utf8ByteSize) =
      g.nonTerminals.map (·.name.utf8ByteSize) := by
    rw [productionReport, List.map_map]
    rfl
  obtain ⟨width, hmax⟩ : ∃ width, (g.nonTerminals.map (·.name.utf8ByteSize)).max? = some width :=
    Option.isSome_iff_exists.mp (List.isSome_max?_of_ne_nil (by simpa using h))
  obtain ⟨hmem, hle⟩ := List.max?_eq_some_iff.mp hmax
  rw [ProductionReport.width, hsizes, hmax]
  exact ⟨List.mem_map.mp hmem, fun n hn => hle n (List.mem_map.mpr hn)⟩

/-- A left side has more bytes than padding can fill. -/
def HasWideLeft (g : Grammar) : Prop :=
  ∃ nt ∈ g.nonTerminals, maxWidth < nt.name.utf8ByteSize

theorem hasWideLeft_iff (h : g.nonTerminals ≠ []) :
    g.HasWideLeft ↔ maxWidth < g.productionReport.width := by
  have hwidth := isGreatest_width h
  constructor
  · rintro ⟨nt, hnt, hwide⟩
    exact hwide.trans_le (hwidth.2 ⟨nt, hnt, rfl⟩)
  · intro hwide
    obtain ⟨nt, hnt, hsize⟩ := hwidth.1
    exact ⟨nt, hnt, hsize ▸ hwide⟩

/-- Whether the report can be printed in plain text depends on the left sides only. -/
theorem plain?_productionReport (h : ofLines sourceLines = .ok g) :
    (g.HasWideLeft → g.productionReport.plain? = none) ∧
    (¬ g.HasWideLeft → g.productionReport.plain? = some g.productionReport.plain) := by
  obtain ⟨rules, hrules, hok⟩ := ofLines_eq_ok_iff.mp h
  have hread := isReadable_productionReport (exists_isStatedBy hrules) hok
  rw [hasWideLeft_iff (wellFormed_of_ofRules hok).nonTerminals_ne_nil, Nat.not_lt]
  exact ⟨ProductionReport.plain?_eq_none fun row hrow => (hread row hrow).rights_ne_nil,
    ProductionReport.plain?_eq_some⟩

/-- The production report of a grammar that was read from lines has a line for each production, in
order. With the length in bytes of the longest left side as their width, all lines have a column of
that many characters in front. For the first alternative of a non-terminal its name stands at the
right end of the column, with an arrow behind it. For the others the column is left empty, with a
bar behind it. Then comes the alternative, with single spaces between its symbols. -/
theorem lines_plain_shows (h : ofLines sourceLines = .ok g) :
    ∃ width lines, IsGreatest {n | ∃ nt ∈ g.nonTerminals, nt.name.utf8ByteSize = n} width ∧
      (width ≤ maxWidth → g.productionReport.plain? = some g.productionReport.plain) ∧
      g.productionReport.plain.toList = ['\n'].intercalate lines ∧
      Text.lines g.productionReport.plain.toList = lines ∧
      lines.length = g.productions.length ∧
      ∀ k p, g.productions[k]? = some p → ∃ line, lines[k]? = some line ∧
        ShowsAlternative width (g.name p.left) (g.spell p.right)
          (∀ q ∈ g.productions.take k, q.left ≠ p.left) line := by
  obtain ⟨rules, hrules, hok⟩ := ofLines_eq_ok_iff.mp h
  have hread := isReadable_productionReport (exists_isStatedBy hrules) hok
  have hwidth := isGreatest_width (wellFormed_of_ofRules hok).nonTerminals_ne_nil
  have hrows : (g.productionReport.rows.map fun row =>
      (row.plainLines g.productionReport.width).map String.toList).flatten =
        g.nonTerminalIndexes.flatMap (g.linesOf g.productionReport.width) := by
    rw [rows_productionReport, List.map_map]
    rfl
  have hfits : ∀ i ∈ g.nonTerminalIndexes,
      (g.name i).toList.length ≤ g.productionReport.width := fun i hi => by
    obtain ⟨nt, hnt, hname⟩ := exists_nonTerminal_name (g.mem_nonTerminalIndexes.mp hi)
    exact (length_le_utf8ByteSize _).trans (hwidth.2 ⟨nt, hnt, hname ▸ rfl⟩)
  refine ⟨_, g.nonTerminalIndexes.flatMap (g.linesOf g.productionReport.width), hwidth,
    ProductionReport.plain?_eq_some, ?_, ?_, ?_, fun k p hp => ?_⟩
  · rw [ProductionReport.toList_plain hread, hrows]
  · rw [ProductionReport.lines_plain hread, hrows]
  · show _ = (g.nonTerminalIndexes.flatMap g.productionsOf).length
    simp only [List.length_flatMap, length_linesOf]
  · exact exists_flatMap_shows List.nodup_range' hfits hp

/-- Lines with a left side of two characters, which take six bytes, and one of a single byte. -/
def wideLines : List (List Char) :=
  ["é𝔸 -> a é | b".toList, " T ->|T ε".toList]

/-- The grammar of `wideLines`. -/
def wideGrammar : Grammar :=
  ⟨[⟨"é𝔸", [[4, 5], [6]]⟩, ⟨"T", [[], [3, 0]]⟩], ["a", "é", "b"]⟩

/-- The column has six characters, four of them in front of the longest left side. -/
theorem lines_plain_shows_wide : ofLines wideLines = .ok wideGrammar ∧
    wideGrammar.productionReport.plain = "    é𝔸 -> a é\n        | b\n     T -> ε\n        | T ε" ∧
    ∃ lines, Text.lines wideGrammar.productionReport.plain.toList = lines ∧ lines.length = 4 ∧
      (∃ line, lines[0]? = some line ∧ ShowsAlternative 6 "é𝔸" ["a", "é"] True line) ∧
      (∃ line, lines[1]? = some line ∧ ShowsAlternative 6 "é𝔸" ["b"] False line) ∧
      ∃ line, lines[2]? = some line ∧ ShowsAlternative 6 "T" [] True line := by
  have hok : ofLines wideLines = .ok wideGrammar := by decide +kernel
  obtain ⟨width, lines, hwidth, -, -, hlines, hlength, hshows⟩ := lines_plain_shows hok
  obtain rfl : width = 6 := hwidth.unique
    ⟨⟨_, List.mem_cons_self, by decide⟩, by rintro n ⟨nt, hnt, rfl⟩; revert nt; decide⟩
  refine ⟨hok, by decide +kernel, lines, hlines, hlength, ?_, ?_, ?_⟩
  · obtain ⟨line, hline, hshow⟩ := hshows 0 ⟨2, [4, 5]⟩ rfl
    exact ⟨line, hline, hshow.congr (by decide)⟩
  · obtain ⟨line, hline, hshow⟩ := hshows 1 ⟨2, [6]⟩ rfl
    exact ⟨line, hline, hshow.congr (by decide)⟩
  · obtain ⟨line, hline, hshow⟩ := hshows 2 ⟨3, []⟩ rfl
    exact ⟨line, hline, hshow.congr (by decide)⟩

end Grammar

end Lookahead
