import Lookahead.Json.Denotation
import Lookahead.Proofs.Grammar.Spelling

/-!
# Productions in JSON

The production report in JSON holds all that there is to a grammar. A report is read from a
JSON value field by field (`ProductionReport.ofJson?`), whatever the names in it are, and
its rows are rules that make the grammar again.

`ofRules_read?_render` : the JSON text is well-formed, and leads back to the grammar.
-/

namespace Lookahead

namespace Json

/-- The value of the first field of an object with the given name. -/
def field? (name : String) : Json → Option Json
  | object fields => fields.lookup name
  | _ => none

def asString? : Json → Option String
  | string s => some s
  | _ => none

def asArray? : Json → Option (List Json)
  | array items => some items
  | _ => none

/-- The strings of an array of strings. -/
def asStrings? (v : Json) : Option (List String) :=
  v.asArray?.bind fun items => items.mapM asString?

end Json

/-- The row that an object with a left side and alternatives stands for. -/
def ProductionRow.ofJson? (v : Json) : Option ProductionRow := do
  let left ← (← v.field? "left").asString?
  let rights ← (← (← v.field? "rights").asArray?).mapM Json.asStrings?
  return ⟨left, rights⟩

/-- The report that an object with rows stands for. -/
def ProductionReport.ofJson? (v : Json) : Option ProductionReport := do
  let rows ← (← (← v.field? "productions").asArray?).mapM ProductionRow.ofJson?
  return ⟨rows⟩

theorem mapM_map_of_leftInverse {α β : Type} {write : α → β} {read : β → Option α}
    (h : ∀ a, read (write a) = some a) (as : List α) : (as.map write).mapM read = some as := by
  rw [List.mapM_map]
  induction as with
  | nil => rfl
  | cons a as ih => simp [h, ih]

theorem Json.asStrings?_strings (items : List String) :
    (Json.strings items).asStrings? = some items := by
  have h : ∀ s, (Json.string s).asString? = some s := fun _ => rfl
  exact mapM_map_of_leftInverse h items

theorem ProductionRow.ofJson?_toJson (row : ProductionRow) : ofJson? row.toJson = some row := by
  have hrights := mapM_map_of_leftInverse Json.asStrings?_strings row.rights
  simp [ofJson?, toJson, Json.field?, Json.asArray?, Json.asString?, List.lookup_cons, hrights]

/-- A report is read back from its JSON value. -/
theorem ProductionReport.ofJson?_toJson (report : ProductionReport) :
    ofJson? report.toJson = some report := by
  have hrows := mapM_map_of_leftInverse ProductionRow.ofJson?_toJson report.rows
  simp [ofJson?, toJson, Json.field?, Json.asArray?, hrows]

namespace Grammar

variable {g : Grammar} {rules : List Rule}

/-- The production report in JSON is the text of a JSON value. The value that the text is
read as is that of a report whose rows, taken as rules in their order, make the grammar
again. -/
theorem ofRules_read?_render (h : ofRules rules = .ok g) :
    ∃ v report, Json.Denotes g.productionReport.toJson.render.toList v ∧
      Json.read? g.productionReport.toJson.render = some v ∧
      ProductionReport.ofJson? v = some report ∧ ofRules report.rules = .ok g := by
  refine ⟨g.productionReport.toJson, g.productionReport, ?_, Json.read?_render _,
    ProductionReport.ofJson?_toJson _, ofRules_rules_productionReport h⟩
  rw [Json.render, String.toList_ofList]
  exact Json.denotes_renderChars _

/-- Rules with a quotation mark, a backslash and control characters in their names, with the
markers and the empty name among the symbols, an empty alternative, a left side without
alternatives, and a left side that takes the name of the empty string. -/
def quotedRules : List Rule :=
  [⟨"a\"\\", [["$", "\n\x01"], [], ["ε", "", "b"]]⟩, ⟨"b", []⟩, ⟨"ε", [["a\"\\", "$"]]⟩]

/-- The grammar of `quotedRules`. -/
def quotedGrammar : Grammar :=
  ⟨[⟨"a\"\\", [[5, 6], [], [4, 7, 3]]⟩, ⟨"b", []⟩, ⟨"ε", [[2, 5]]⟩], ["$", "\n\x01", ""]⟩

/-- The text of its report, with every escape in place, leads back to the grammar. -/
theorem ofRules_read?_render_quoted : ofRules quotedRules = .ok quotedGrammar ∧
    ∃ v report, Json.Denotes quotedGrammar.productionReport.toJson.render.toList v ∧
      Json.read? quotedGrammar.productionReport.toJson.render = some v ∧
      ProductionReport.ofJson? v = some report ∧ ofRules report.rules = .ok quotedGrammar := by
  have hok : ofRules quotedRules = .ok quotedGrammar := by decide +kernel
  exact ⟨hok, ofRules_read?_render hok⟩

end Grammar

end Lookahead
