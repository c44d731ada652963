import Lookahead.Proofs.CommandLine.Run
import Lookahead.Proofs.Report.JsonProductions

/-!
# The summary in JSON

The table of both sets for a text is exported as JSON (`summaryJson`), and printed by the command
for a file with that text. The two go their own ways from the text to the table, or to the message
of what is wrong, and come to the same.

* `Summary.ofJson?_toJson` : the table is read back from its JSON value.
* `summaryJson_outcome` : what the export holds, and that the command agrees with it.
-/

namespace Lookahead

open Grammar (start)

/-! ## Reading a table back -/

def Json.asBool? : Json → Option Bool
  | bool b => some b
  | _ => none

/-- The row that an object with a name, a flag and two lists of names stands for. -/
def SummaryRow.ofJson? (v : Json) : Option SummaryRow := do
  let name ← (← v.field? "name").asString?
  let nullable ← (← v.field? "nullable").asBool?
  let first ← (← v.field? "first").asStrings?
  let follow ← (← v.field? "follow").asStrings?
  return ⟨name, nullable, first, follow⟩

/-- The table that an object with rows stands for. -/
def Summary.ofJson? (v : Json) : Option Summary := do
  let rows ← (← (← v.field? "data").asArray?).mapM SummaryRow.ofJson?
  return ⟨rows⟩

theorem SummaryRow.ofJson?_toJson (row : SummaryRow) : ofJson? row.toJson = some row := by
  simp [ofJson?, toJson, Json.field?, Json.asString?, Json.asBool?, List.lookup_cons,
    Json.asStrings?_strings]

/-- A table is read back from its JSON value. -/
theorem Summary.ofJson?_toJson (report : Summary) : ofJson? report.toJson = some report := by
  have hrows := mapM_map_of_leftInverse SummaryRow.ofJson?_toJson report.rows
  simp [ofJson?, toJson, Json.field?, Json.asArray?, hrows]

/-! ## The export -/

variable {text : String} {g : Grammar} {a : Analysis} {e : AnalysisError}

theorem Grammar.name_start_add {k : Nat} {nt : NonTerminal} (h : g.nonTerminals[k]? = some nt) :
    g.name (start + k) = nt.name := by
  obtain ⟨hk, rfl⟩ := List.getElem?_eq_some_iff.mp h
  rw [name, name?, symbol?_start_add, List.getElem?_append_left (by simpa using hk)]
  simp [hk, Symbol.name]

/-- There is a row for every non-terminal, in order. -/
theorem Grammar.getElem?_rows_summary (g : Grammar) (a : Analysis) (k : Nat) :
    (g.summary a).rows[k]? = (g.nonTerminals[k]?).map fun nt =>
      SummaryRow.mk nt.name (decide (a.first.IsNullable (start + k)))
        (g.memberNames (a.first.get (start + k))) (g.memberNames (a.follow.get (start + k))) := by
  cases h : g.nonTerminals[k]? with
  | none => simpa [summary, nonTerminalIndexes] using h
  | some nt =>
    obtain ⟨hk, -⟩ := List.getElem?_eq_some_iff.mp h
    simp [summary, nonTerminalIndexes, hk, name_start_add h]

theorem analyzeText_of_some {r : LeftRecursion} (h : Grammar.ofText text = .ok g)
    (hsome : g.leftRecursion? = some r) : analyzeText text = .error (.leftRecursion r) := by
  have ha : g.analyze = .error r := g.analyze_eq_error_iff.mpr hsome
  rw [analyzeText, h]
  show (g.analyze.mapError AnalysisError.leftRecursion >>= fun a => pure (g, a)) = _
  rw [ha]
  rfl

theorem summaryJson_of_ok (h : analyzeText text = .ok (g, a)) :
    summaryJson text = (g.summary a).toJson.render := by
  rw [summaryJson, h]

theorem summaryJson_of_error (h : analyzeText text = .error e) :
    summaryJson text = (Json.object [("error", .string e.message)]).render := by
  rw [summaryJson, h]

/-- What is written is JSON, and is read as the value it was written for. -/
theorem denotes_and_read?_render {v : Json} {json : String} (h : json = v.render) :
    Json.Denotes json.toList v ∧ Json.read? json = some v := by
  subst h
  refine ⟨?_, Json.read?_render v⟩
  rw [Json.render, String.toList_ofList]
  exact Json.denotes_renderChars v

/-! ## The command for a file -/

namespace CommandLine

variable {env : Environment} {path : String} {arguments : List String} {verbosity : Nat}

theorem ofArguments?_json (h : IsFileName path) :
    Request.ofArguments? ["-j", path] = some (.run ⟨.json, 0, [path]⟩) := by
  have hflag : Request.ofArguments? ["-j"] = some (.run ⟨.json, 0, []⟩) := rfl
  exact ofArguments?_concat h.1 hflag

theorem toPrintout_run_json
    (hrun : Request.ofArguments? arguments = some (.run ⟨.json, verbosity, [path]⟩))
    (hname : Output.ofName? path = none) (hfile : env.file? path = some (encode text)) :
    (run env arguments).toPrintout =
      .ofLoaded .json [.summary] ((analyzeText text).mapError .analysis) := by
  have htargets : Targets.ofPositional [path] = .ok ⟨[.summary], .file path⟩ :=
    Targets.ofPositional_eq_ok_iff.mpr ⟨[], some path, rfl, by simpa using hname, rfl⟩
  rw [toPrintout_run hrun htargets, load_file hfile]

theorem run_json_of_ok (h : analyzeText text = .ok (g, a))
    (hrun : Request.ofArguments? arguments = some (.run ⟨.json, verbosity, [path]⟩))
    (hname : Output.ofName? path = none) (hfile : env.file? path = some (encode text)) :
    (run env arguments).exitCode = 0 ∧ (run env arguments).output = summaryJson text ++ "\n" ∧
      (run env arguments).failure? = none := by
  have htext : Output.summary.text? .json g a = some (g.summary a).toJson.render := rfl
  have hprintout : (run env arguments).toPrintout = .ofText (summaryJson text ++ "\n") := by
    rw [toPrintout_run_json hrun hname hfile, h, summaryJson_of_ok h]
    exact printAll_singleton htext
  rw [hprintout]
  exact ⟨rfl, rfl, rfl⟩

theorem run_json_of_error (h : analyzeText text = .error e)
    (hrun : Request.ofArguments? arguments = some (.run ⟨.json, verbosity, [path]⟩))
    (hname : Output.ofName? path = none) (hfile : env.file? path = some (encode text)) :
    (run env arguments).exitCode = 1 ∧ (run env arguments).output = "" ∧
      (run env arguments).failure?.map Failure.message = some e.message := by
  have hprintout : (run env arguments).toPrintout = .failed (.analysis e) := by
    rw [toPrintout_run_json hrun hname hfile, h]
    rfl
  rw [hprintout]
  exact ⟨rfl, rfl, rfl⟩

end CommandLine

open CommandLine

/-- The export of a text is a JSON object. If the text can be analyzed, the object has one field
with a row for every non-terminal in order, from which the names, the flags and the two lists of
the analysis are read back; else it has one field with the message of what is wrong. A command that
asks for the summary in JSON of a file with that text prints the export and a feed, or it fails with
the same message and prints nothing. -/
theorem summaryJson_outcome (text : String) :
    ∃ fields, Json.Denotes (summaryJson text).toList (.object fields) ∧
      Json.read? (summaryJson text) = some (.object fields) ∧
      (∀ g a, analyzeText text = .ok (g, a) →
        (∃ items, fields = [("data", .array items)]) ∧
        Summary.ofJson? (.object fields) = some (g.summary a) ∧
        ∀ k, (g.summary a).rows[k]? = (g.nonTerminals[k]?).map fun nt =>
          SummaryRow.mk nt.name (decide (a.first.IsNullable (start + k)))
            (g.memberNames (a.first.get (start + k))) (g.memberNames (a.follow.get (start + k)))) ∧
      (∀ e, analyzeText text = .error e → fields = [("error", .string e.message)]) ∧
      ∀ path, IsFileName path →
        Request.ofArguments? ["-j", path] = some (.run ⟨.json, 0, [path]⟩) ∧
        ∀ env arguments verbosity, env.file? path = some (encode text) →
          Request.ofArguments? arguments = some (.run ⟨.json, verbosity, [path]⟩) →
          (∀ g a, analyzeText text = .ok (g, a) → (run env arguments).exitCode = 0 ∧
            (run env arguments).output = summaryJson text ++ "\n" ∧
            (run env arguments).failure? = none) ∧
          ∀ e, analyzeText text = .error e → (run env arguments).exitCode = 1 ∧
            (run env arguments).output = "" ∧
            (run env arguments).failure?.map Failure.message = some e.message := by
  suffices hexport : ∃ fields, Json.Denotes (summaryJson text).toList (.object fields) ∧
      Json.read? (summaryJson text) = some (.object fields) ∧
      (∀ g a, analyzeText text = .ok (g, a) → .object fields = (g.summary a).toJson) ∧
      ∀ e, analyzeText text = .error e → fields = [("error", .string e.message)] by
    obtain ⟨fields, hdenotes, hread, hok, herror⟩ := hexport
    refine ⟨fields, hdenotes, hread, fun g a h => ⟨?_, ?_, g.getElem?_rows_summary a⟩, herror,
      fun path hpath => ⟨ofArguments?_json hpath, fun env arguments verbosity hfile hrun => ?_⟩⟩
    · exact ⟨_, Json.object.inj (hok g a h)⟩
    · rw [hok g a h, Summary.ofJson?_toJson]
    · exact ⟨fun g a h => run_json_of_ok h hrun hpath.2 hfile,
        fun e h => run_json_of_error h hrun hpath.2 hfile⟩
  cases h : analyzeText text with
  | ok loaded =>
    obtain ⟨hdenotes, hread⟩ := denotes_and_read?_render (summaryJson_of_ok h)
    refine ⟨_, hdenotes, hread, fun g a heq => ?_, by simp⟩
    obtain rfl := Except.ok.inj heq
    rfl
  | error e =>
    obtain ⟨hdenotes, hread⟩ := denotes_and_read?_render (summaryJson_of_error h)
    refine ⟨_, hdenotes, hread, by simp, fun e' heq => ?_⟩
    rw [Except.error.inj heq]

/-- A text with a quotation mark and a backslash among its symbols. -/
def quotedText : String := "S -> \" X\nX -> \\ | ε"

/-- The grammar of `quotedText`. -/
def quotedTextGrammar : Grammar :=
  ⟨[⟨"S", [[4, 3]]⟩, ⟨"X", [[5], [0]]⟩], ["\"", "\\"]⟩

/-- A text with left recursion and a quotation mark in its message. -/
def recursiveText : String := "E -> E \" | ε"

/-- The grammar of `recursiveText`. -/
def recursiveTextGrammar : Grammar :=
  ⟨[⟨"E", [[2, 3], [0]]⟩], ["\""]⟩

/-- Both texts in files. -/
def textFiles : Environment where
  input := []
  file? path :=
    if path = "good" then some (encode quotedText)
    else if path = "bad" then some (encode recursiveText)
    else none

/-- The command prints the export of the one text, and refuses the other with its message. -/
theorem summaryJson_outcome_quoted :
    (∃ fields, Json.read? (summaryJson quotedText) = some (.object fields) ∧
      Summary.ofJson? (.object fields) =
        some (quotedTextGrammar.summary quotedTextGrammar.analysis)) ∧
    (run textFiles ["-j", "good"]).output = summaryJson quotedText ++ "\n" ∧
    (∃ message, Json.read? (summaryJson recursiveText) =
        some (.object [("error", .string message)]) ∧
      message = "Grammar invalid for top-down parsing: " ++
        "Direct left recursion found in rule: E -> E \"" ∧
      (run textFiles ["-j", "bad"]).exitCode = 1 ∧
      (run textFiles ["-j", "bad"]).failure?.map Failure.message = some message) := by
  have hquoted : Grammar.ofText quotedText = .ok quotedTextGrammar := by decide +kernel
  have hrecursive : Grammar.ofText recursiveText = .ok recursiveTextGrammar := by decide +kernel
  have hgood := analyzeText_eq_ok_iff.mpr
    ⟨hquoted, (Grammar.analyze_eq_ok_iff _).mpr ⟨by cbv, rfl⟩⟩
  have hbad := analyzeText_of_some (r := ⟨"E", [("E", ["E", "\""])]⟩) hrecursive (by cbv)
  obtain ⟨fields, -, hread, hok, -, hgoodFile⟩ := summaryJson_outcome quotedText
  obtain ⟨fields', -, hread', -, herror, hbadFile⟩ := summaryJson_outcome recursiveText
  obtain ⟨hreq, hrun⟩ := hgoodFile "good" (by decide)
  obtain ⟨hreq', hrun'⟩ := hbadFile "bad" (by decide)
  obtain ⟨hexit, -, hmessage⟩ := (hrun' textFiles _ 0 rfl hreq').2 _ hbad
  refine ⟨⟨fields, hread, (hok _ _ hgood).2.1⟩, ((hrun textFiles _ 0 rfl hreq).1 _ _ hgood).2.1,
    _, ?_, by decide +kernel, hexit, hmessage⟩
  rw [hread', herror _ hbad]

end Lookahead
