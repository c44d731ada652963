import Lookahead.Proofs.CommandLine.Printing
import Lookahead.Proofs.Grammar.Interning
import Lookahead.Proofs.Grammar.RuleLines
import Lookahead.Proofs.LeftCorner.Links
import Lookahead.Proofs.Sets.PassCount

/-!
# What the verbosity of a command changes

Each `-v` shows one more level of the log and changes nothing else. Commands that stand for the same
but for such flags (`SameButVerbosity`) make the same request up to the verbosity in it
(`Request.ofItems?_of_quiet`). So they share one log, of which each shows its part, and print one
thing (`exists_run_eq`).

What is logged on the way from lines to sets tells how far it went (`Stages`) : the warnings that
came up in interning, one line on the grammar, the search for left recursion, and, only if that
finds nothing, the passes of the two loops, in the order in which they ran.
-/

namespace Lookahead.CommandLine

variable {env : Environment} {arguments arguments' : List String} {items items' : List Item}
  {lines : List (List Char)}

/-! ## Flags for more detail -/

namespace Item

/-- The items that are no flags for more detail, in order. -/
def quiet (items : List Item) : List Item :=
  items.filter (· ≠ .flag .verbose)

@[simp] theorem quiet_verbose_cons (items : List Item) :
    quiet (.flag .verbose :: items) = quiet items :=
  rfl

theorem find?_isDecisive_quiet (items : List Item) :
    (quiet items).find? Request.isDecisive = items.find? Request.isDecisive := by
  rw [quiet, List.find?_filter]
  refine congrArg (List.find? · items) (funext fun item => ?_)
  by_cases h : item = .flag .verbose
  · subst h
    rfl
  · simp [h]

theorem count_quiet (items : List Item) {f : Flag} (h : f ≠ .verbose) :
    (quiet items).count (.flag f) = items.count (.flag f) :=
  List.count_filter (by simpa using h)

theorem values_quiet (items : List Item) : values (quiet items) = values items := by
  rw [values, quiet, List.filterMap_filter]
  refine congrArg (List.filterMap · items) (funext fun item => ?_)
  by_cases h : item = .flag .verbose
  · subst h
    rfl
  · simp [h]

end Item

/-- The same request, with another number of flags for more detail. -/
def Request.withVerbosity (verbosity : Nat) : Request → Request
  | version => version
  | help => help
  | run options => run { options with verbosity }

theorem Options.ofItems?_of_quiet (h : Item.quiet items = Item.quiet items') :
    Options.ofItems? items' =
      (Options.ofItems? items).map ({ · with verbosity := items'.count (.flag .verbose) }) := by
  have hcount {f : Flag} (hf : f ≠ .verbose) : items'.count (.flag f) = items.count (.flag f) := by
    rw [← Item.count_quiet items' hf, ← h, Item.count_quiet items hf]
  have hvalues : Item.values items' = Item.values items := by
    rw [← Item.values_quiet items', ← h, Item.values_quiet]
  unfold Options.ofItems?
  simp only [hcount (f := .latex) (by decide), hcount (f := .json) (by decide)]
  split
  · rfl
  · exact congrArg (fun positional => some (Options.mk _ _ positional)) hvalues

/-- Items that differ in flags for more detail only make the same request up to these. -/
theorem Request.ofItems?_of_quiet (h : Item.quiet items = Item.quiet items') :
    ofItems? items' = (ofItems? items).map (withVerbosity (items'.count (.flag .verbose))) := by
  have hfind : items'.find? isDecisive = items.find? isDecisive := by
    rw [← Item.find?_isDecisive_quiet items', ← h, Item.find?_isDecisive_quiet]
  unfold ofItems?
  rw [hfind]
  split
  · rfl
  · rfl
  · rfl
  · rw [Options.ofItems?_of_quiet h, Option.map_map, Option.map_map]
    rfl

/-- How often the arguments ask for more detail. -/
def verbosity (arguments : List String) : Nat :=
  (readArguments arguments).count (.flag .verbose)

/-- The arguments stand for the same but for flags for more detail. -/
def SameButVerbosity (arguments arguments' : List String) : Prop :=
  Item.quiet (readArguments arguments) = Item.quiet (readArguments arguments')

theorem readArguments_verbose_cons (arguments : List String) :
    readArguments ("-v" :: arguments) = .flag .verbose :: readArguments arguments := by
  have hend : "-v" ≠ endOfFlags := by decide
  rw [readArguments, if_neg hend]
  rfl

theorem readArguments_replicate_verbose (n : Nat) (arguments : List String) :
    readArguments (List.replicate n "-v" ++ arguments) =
      List.replicate n (.flag .verbose) ++ readArguments arguments := by
  induction n with
  | zero => rfl
  | succ n ih =>
    rw [List.replicate_succ, List.cons_append, readArguments_verbose_cons, ih,
      List.replicate_succ, List.cons_append]

theorem verbosity_replicate_verbose (n : Nat) (arguments : List String) :
    verbosity (List.replicate n "-v" ++ arguments) = n + verbosity arguments := by
  rw [verbosity, readArguments_replicate_verbose, List.count_append, List.count_replicate_self]
  rfl

theorem sameButVerbosity_replicate_verbose (n : Nat) (arguments : List String) :
    SameButVerbosity arguments (List.replicate n "-v" ++ arguments) := by
  rw [SameButVerbosity, readArguments_replicate_verbose]
  induction n with
  | zero => rfl
  | succ n ih => rwa [List.replicate_succ, List.cons_append, Item.quiet_verbose_cons]

/-! ## What is shown -/

/-- A command prints one thing and has one log, whatever part of the log it shows. -/
theorem exists_run_eq (env : Environment) (arguments : List String) :
    ∃ printout log, ∀ arguments', SameButVerbosity arguments arguments' →
      run env arguments' = ⟨printout, shown (verbosity arguments') log⟩ := by
  have hrequest {arguments' : List String} (h : SameButVerbosity arguments arguments') :
      Request.ofArguments? arguments' =
        (Request.ofArguments? arguments).map (Request.withVerbosity (verbosity arguments')) :=
    Request.ofItems?_of_quiet h
  cases hr : Request.ofArguments? arguments with
  | none =>
    refine ⟨.failed .usage, [], fun arguments' h => ?_⟩
    rw [run, hrequest h, hr]
    rfl
  | some request =>
    cases request with
    | version =>
      refine ⟨.ofText versionText, [], fun arguments' h => ?_⟩
      rw [run, hrequest h, hr]
      rfl
    | help =>
      refine ⟨.ofText helpText, [], fun arguments' h => ?_⟩
      rw [run, hrequest h, hr]
      rfl
    | run options =>
      refine ⟨(runLogged env options).toPrintout, (runLogged env options).log,
        fun arguments' h => ?_⟩
      rw [run, hrequest h, hr]
      rfl

/-- The level that so many flags ask for. -/
def levelOf : Nat → Level
  | 0 => .warn
  | 1 => .info
  | 2 => .debug
  | _ => .trace

theorem detail_le_three (level : Level) : level.detail ≤ 3 := by
  cases level <;> decide

theorem detail_le_levelOf_iff (level : Level) (n : Nat) :
    level.detail ≤ (levelOf n).detail ↔ level.detail ≤ n := by
  have hle := detail_le_three level
  match n with
  | 0 | 1 | 2 => rfl
  | n + 3 => exact iff_of_true hle (Nat.le_trans hle (Nat.le_add_left 3 n))

theorem shown_eq_filter (n : Nat) (log : List Event) :
    shown n log = log.filter (·.level.detail ≤ (levelOf n).detail) := by
  simp only [shown, detail_le_levelOf_iff]

theorem shown_of_three_le {n : Nat} (h : 3 ≤ n) (log : List Event) : shown n log = log := by
  refine List.filter_eq_self.mpr fun event _ => decide_eq_true ?_
  exact Nat.le_trans (detail_le_three event.level) h

/-! ## The stages of loading -/

/-- What is logged while lines are made into a grammar with its sets, and what comes of it. Each
stage is entered only if those before it did not fail. -/
inductive Stages (lines : List (List Char)) :
    List Event → Except AnalysisError (Grammar × Analysis) → Prop
  | malformed {e : GrammarError} (h : Rules.ofLines 1 lines = .error e) :
    Stages lines [] (.error (.grammar e))
  | unbuilt {rules : List Rule} {e : GrammarError} (hrules : Rules.ofLines 1 lines = .ok rules)
    (h : (RuleBuilder.ofRules rules).build = .error e) :
    Stages lines [] (.error (.grammar e))
  | leftRecursive {rules : List Rule} {t : SymbolTable} {start : Nat} {g : Grammar}
    {kind : LeftRecursion.Kind} {recursion : LeftRecursion}
    (hrules : Rules.ofLines 1 lines = .ok rules)
    (hbuild : (RuleBuilder.ofRules rules).build = .ok (t, start)) (ht : t.Holds g)
    (h : g.findLeftRecursion = some (some (kind, recursion))) :
    Stages lines
      (t.warnings.map .undefinedSymbol ++
        [.grammarLoaded g.productions.length g.nonTerminals.length g.terminals.length,
          .leftRecursionCheck])
      (.error (.leftRecursion recursion))
  | analyzed {rules : List Rule} {t : SymbolTable} {start : Nat} {g : Grammar}
    {first follow : SetTable} {N M : Nat} (hrules : Rules.ofLines 1 lines = .ok rules)
    (hbuild : (RuleBuilder.ofRules rules).build = .ok (t, start)) (ht : t.Holds g)
    (h : g.findLeftRecursion = some none)
    (hfirst : g.solveFirst = some (first, .firstSets :: passEvents .firstPass N))
    (hfollow : g.solveFollow first = some (follow, .followSets :: passEvents .followPass M)) :
    Stages lines
      (t.warnings.map .undefinedSymbol ++
        [.grammarLoaded g.productions.length g.nonTerminals.length g.terminals.length,
          .leftRecursionCheck] ++
        .firstSets :: passEvents .firstPass N ++ .followSets :: passEvents .followPass M)
      (.ok (g, ⟨first, N, follow, M⟩))

theorem analyzeLines_eq (lines : List (List Char)) :
    analyzeLines lines = match Grammar.ofLines lines with
      | .error e => .error (.grammar e)
      | .ok g => match g.analyze with
        | .error r => .error (.leftRecursion r)
        | .ok a => .ok (g, a) := by
  unfold analyzeLines
  cases Grammar.ofLines lines with
  | error e => rfl
  | ok g =>
    cases ha : g.analyze <;>
      simp [ha, Except.mapError, bind, Except.bind, pure, Except.pure]

theorem stages_of_rules {rules : List Rule} {g : Grammar}
    (hrules : Rules.ofLines 1 lines = .ok rules) (hg : Grammar.ofRules rules = .ok g) :
    Stages lines g.events (analyzeLines lines) := by
  obtain ⟨t, hbuild, ht⟩ := RuleBuilder.build_ofRules hg
  have hlines : Grammar.ofLines lines = .ok g := (Grammar.ofLines_of_rules hrules).trans hg
  have hwf := Grammar.wellFormed_of_ofRules hg
  have hsearch := Grammar.findLeftRecursion_eq hwf
  cases hr : g.leftRecursion? with
  | some recursion =>
    have hanalyze := g.analyze_eq_error_iff.mpr hr
    have hloaded : analyzeLines lines = .error (.leftRecursion recursion) := by
      simp only [analyzeLines_eq, hlines, hanalyze]
    have hevents : g.events = t.warnings.map .undefinedSymbol ++
        [.grammarLoaded g.productions.length g.nonTerminals.length g.terminals.length,
          .leftRecursionCheck] := by
      simp [Grammar.events, Grammar.loadEvents, Grammar.analysisEvents, hanalyze, ht.warnings]
    rw [hr] at hsearch
    rw [hloaded, hevents]
    exact .leftRecursive hrules hbuild ht hsearch
  | none =>
    have hanalyze := g.analyze_eq_ok_iff.mpr ⟨hr, rfl⟩
    have hloaded : analyzeLines lines = .ok (g, g.analysis) := by
      simp only [analyzeLines_eq, hlines, hanalyze]
    have hevents : g.events = t.warnings.map .undefinedSymbol ++
        [.grammarLoaded g.productions.length g.nonTerminals.length g.terminals.length,
          .leftRecursionCheck] ++
        .firstSets :: passEvents .firstPass g.firstLimit.passes ++
        .followSets :: passEvents .followPass (g.followLimit g.first).passes := by
      simp [Grammar.events, Grammar.loadEvents, Grammar.analysisEvents, hanalyze,
        Analysis.events, Grammar.analysis, ht.warnings]
    rw [hr] at hsearch
    rw [hloaded, hevents]
    exact .analyzed hrules hbuild ht hsearch (Grammar.solveFirst_eq hwf)
      (Grammar.solveFollow_eq hwf)

/-- The log of processing lines starts with their number and goes on with what the stages log. -/
theorem exists_stages (lines : List (List Char)) : ∃ events,
    Stages lines events (analyzeLines lines) ∧ ∀ format outputs,
      (process format outputs lines).log = .linesRead lines.length :: events := by
  cases hrules : Rules.ofLines 1 lines with
  | error e =>
    have hlines := Grammar.ofLines_of_error hrules
    refine ⟨[], ?_, fun format outputs => by rw [process, hlines]⟩
    rw [analyzeLines_eq, hlines]
    exact .malformed hrules
  | ok rules =>
    have hlines := Grammar.ofLines_of_rules hrules
    cases hg : Grammar.ofRules rules with
    | error e =>
      rw [hg] at hlines
      refine ⟨[], ?_, fun format outputs => by rw [process, hlines]⟩
      rw [analyzeLines_eq, hlines]
      exact .unbuilt hrules (RuleBuilder.build_ofRules_error hg)
    | ok g =>
      rw [hg] at hlines
      exact ⟨g.events, stages_of_rules hrules hg, fun format outputs => by rw [process, hlines]⟩

/-! ## The command -/

theorem verbosity_of_ofArguments? {options : Options}
    (h : Request.ofArguments? arguments = some (.run options)) :
    options.verbosity = verbosity arguments := by
  have hself : Request.ofArguments? arguments =
      (Request.ofArguments? arguments).map (Request.withVerbosity (verbosity arguments)) :=
    Request.ofItems?_of_quiet rfl
  rw [h] at hself
  exact congrArg Options.verbosity (Request.run.inj (Option.some.inj hself))

/-- A command that gets to read the lines of a grammar processes them. -/
theorem run_of_readLines {source : Source} (hsource : source? arguments = some source)
    (hlines : readLines env source = .ok lines) : ∃ format outputs, run env arguments =
      ⟨(process format outputs lines).toPrintout,
        shown (verbosity arguments) (process format outputs lines).log⟩ := by
  unfold source? at hsource
  split at hsource
  · next options hrun =>
    cases ht : Targets.ofPositional options.positional with
    | error e => simp [ht, Except.toOption] at hsource
    | ok targets =>
      obtain rfl : targets.source = source := by simpa [ht, Except.toOption] using hsource
      refine ⟨options.format, targets.outputs, ?_⟩
      have hlogged : runLogged env options = process options.format targets.outputs lines := by
        simp only [runLogged, ht, hlines]
      rw [run_of_ofArguments? hrun, verbosity_of_ofArguments? hrun, hlogged]
  · simp at hsource

/-- A command that does not get that far logs nothing. -/
theorem log_of_not_readLines
    (h : ∀ source lines, source? arguments = some source → readLines env source ≠ .ok lines) :
    (run env arguments).log = [] := by
  cases hr : Request.ofArguments? arguments with
  | none => rw [run, hr]
  | some request =>
    cases request with
    | version => rw [run, hr]
    | help => rw [run, hr]
    | run options =>
      have hnothing : (runLogged env options).log = [] := by
        unfold runLogged
        cases ht : Targets.ofPositional options.positional with
        | error e => rfl
        | ok targets =>
          have hsource : source? arguments = some targets.source := by
            simp only [source?, hr, ht, Except.toOption, Option.map_some]
          cases hl : readLines env targets.source with
          | error e => simp only [hl]
          | ok lines => exact absurd hl (h _ lines hsource)
      rw [run_of_ofArguments? hr, hnothing]
      rfl

/-- A run that does not load a grammar fails for the same reason. If it does, it can only fail when
it comes to a list that is too wide. -/
theorem failure?_process (format : Format) (outputs : List Output) (lines : List (List Char)) :
    match analyzeLines lines with
    | .error e => (process format outputs lines).failure? = some (.analysis e)
    | .ok (g, _) => (process format outputs lines).failure? = none ∨
        ((process format outputs lines).failure? = some .columnTooWide ∧ g.HasWideLeft) := by
  have hprintout := toPrintout_process format outputs lines
  cases hload : analyzeLines lines with
  | error e =>
    rw [hload] at hprintout
    rw [hprintout]
    rfl
  | ok loaded =>
    obtain ⟨g, a⟩ := loaded
    rw [hload] at hprintout
    rw [hprintout]
    have hg := (analyzeLines_eq_ok_iff.mp hload).1
    rcases result_printAll hg a format outputs with ⟨-, hresult⟩ | ⟨hstops, hresult⟩
    · exact .inl (by rw [Except.mapError, Printout.ofLoaded, Printout.failure?, hresult])
    · exact .inr
        ⟨by rw [Except.mapError, Printout.ofLoaded, Printout.failure?, hresult], hstops.2.2⟩

/-- A command carried out step by step leaves on the console what its outcome says. Any number of
`-v` in front adds to its verbosity only. Commands that differ in verbosity only end with the same
exit code and the same failure, if any, and print the same. What such a command logs is what it
logs with all details, without the events below its level.

With all details, the log of a command that reads the lines of a grammar starts with their number,
and the stages follow up to the one that fails. The command fails as they do. If none of them fails,
only a left side that is too wide to be printed can make it fail. A command that reads no lines logs
nothing. -/
theorem run_verbosity (env : Environment) (arguments : List String) :
    (Session.command env arguments).on .empty =
      ((run env arguments).result, ⟨(run env arguments).log, (run env arguments).output⟩) ∧
    (∀ n, SameButVerbosity arguments (List.replicate n "-v" ++ arguments) ∧
      verbosity (List.replicate n "-v" ++ arguments) = n + verbosity arguments) ∧
    (∀ arguments', SameButVerbosity arguments arguments' →
      (run env arguments').exitCode = (run env arguments).exitCode ∧
      (run env arguments').output = (run env arguments).output ∧
      (run env arguments').failure? = (run env arguments).failure? ∧
      (3 ≤ verbosity arguments' → (run env arguments).log = (run env arguments').log.filter
        (·.level.detail ≤ (levelOf (verbosity arguments)).detail))) ∧
    (3 ≤ verbosity arguments →
      (∀ source lines, source? arguments = some source → readLines env source = .ok lines →
        ∃ events, Stages lines events (analyzeLines lines) ∧
          (run env arguments).log = .linesRead lines.length :: events ∧
          match analyzeLines lines with
          | .error e => (run env arguments).failure? = some (.analysis e)
          | .ok (g, _) => (run env arguments).failure? = none ∨
              ((run env arguments).failure? = some .columnTooWide ∧ g.HasWideLeft)) ∧
      ((∀ source lines, source? arguments = some source → readLines env source ≠ .ok lines) →
        (run env arguments).log = [])) := by
  refine ⟨Session.on_command env arguments, fun n =>
    ⟨sameButVerbosity_replicate_verbose n arguments, verbosity_replicate_verbose n arguments⟩,
    fun arguments' hsame => ?_, fun hall => ⟨fun source lines hsource hlines => ?_,
      log_of_not_readLines⟩⟩
  · obtain ⟨printout, log, hrun⟩ := exists_run_eq env arguments
    rw [hrun arguments rfl, hrun arguments' hsame]
    refine ⟨rfl, rfl, rfl, fun hall => ?_⟩
    rw [← shown_eq_filter, shown_of_three_le hall]
  · obtain ⟨format, outputs, hrun⟩ := run_of_readLines hsource hlines
    obtain ⟨events, hstages, hlog⟩ := exists_stages lines
    refine ⟨events, hstages, ?_, ?_⟩
    · rw [hrun, shown_of_three_le hall, hlog]
    · rw [hrun]
      exact failure?_process format outputs lines

/-- An environment whose input is one rule that uses a name without a rule. -/
def undefinedInput : Environment where
  input := encode "S -> a B\n"
  file? _ := none

/-- The grammar of `undefinedInput`. -/
def undefinedGrammar : Grammar :=
  ⟨[⟨"S", [[3, 4]]⟩], ["a", "B"]⟩

theorem log_undefinedInput : (run undefinedInput ["-v", "-v", "-v"]).log =
    [.linesRead 1, .undefinedSymbol "B", .grammarLoaded 1 1 2, .leftRecursionCheck, .firstSets,
      .firstPass 1, .firstPass 2, .followSets, .followPass 1] := by
  have hlines : readLines undefinedInput .input = .ok ["S -> a B".toList] := by decide +kernel
  have hg : Grammar.ofLines ["S -> a B".toList] = .ok undefinedGrammar := by decide +kernel
  have hevents : undefinedGrammar.events = [.undefinedSymbol "B", .grammarLoaded 1 1 2,
      .leftRecursionCheck, .firstSets, .firstPass 1, .firstPass 2, .followSets, .followPass 1] := by
    have hsuspects : undefinedGrammar.suspects = ["B"] := by decide +kernel
    rw [Grammar.events, Grammar.loadEvents, hsuspects]
    cbv
  have hsource : source? ["-v", "-v", "-v"] = some .input := by decide
  obtain ⟨format, outputs, hrun⟩ := run_of_readLines hsource hlines
  rw [hrun, shown_of_three_le (by decide), process, hg]
  simp only [hevents]
  rfl

/-- With one flag, the log keeps the warning and the size of the grammar. A command that does not
find its file logs nothing. -/
theorem run_verbosity_undefined :
    (run undefinedInput ["-v"]).log = [.undefinedSymbol "B", .grammarLoaded 1 1 2] ∧
    (run undefinedInput ["-v", "-v", "-v"]).output = (run undefinedInput ["-v"]).output ∧
    (∃ events, Stages ["S -> a B".toList] events (analyzeLines ["S -> a B".toList]) ∧
      (run undefinedInput ["-v", "-v", "-v"]).log = .linesRead 1 :: events) ∧
    (run undefinedInput ["-vvv", "g"]).log = [] := by
  obtain ⟨-, hfront, hsame, -⟩ := run_verbosity undefinedInput ["-v"]
  obtain ⟨-, houtput, -, hlog⟩ := hsame ["-v", "-v", "-v"] (hfront 2).1
  obtain ⟨-, -, -, htrace⟩ := run_verbosity undefinedInput ["-v", "-v", "-v"]
  obtain ⟨-, -, -, hnothing⟩ := run_verbosity undefinedInput ["-vvv", "g"]
  have hlines : readLines undefinedInput .input = .ok ["S -> a B".toList] := by decide +kernel
  obtain ⟨events, hstages, hevents, -⟩ :=
    (htrace (by decide)).1 .input ["S -> a B".toList] (by decide) hlines
  refine ⟨?_, houtput, ⟨events, hstages, hevents⟩, (hnothing (by decide)).2 ?_⟩
  · rw [hlog (by decide), log_undefinedInput]
    rfl
  · intro source lines hsource hread
    obtain rfl : Source.file "g" = source := Option.some.inj hsource
    simp [readLines, undefinedInput] at hread

end Lookahead.CommandLine
