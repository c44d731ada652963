import Lookahead.CommandLine.Session
import Lookahead.Proofs.CommandLine.Arguments

/-!
# What a run comes to

A run reads a grammar from its source and analyzes it (`load`); only if that succeeds is anything
printed, and what is printed follows from the grammar, the format and the outputs
(`toPrintout_run`). The source, the outputs and the format are all that the arguments decide.

Carried out step by step on a console, the command comes to the same (`Session.on_command`) : each
step adds to the log or to what is printed, and a step that fails leaves both as they are.
-/

namespace Lookahead

theorem mapError_eq_ok_iff {ε ε' α : Type} {x : Except ε α} {f : ε → ε'} {a : α} :
    x.mapError f = .ok a ↔ x = .ok a := by
  cases x <;> simp [Except.mapError]

theorem bind_eq_ok_iff {ε α β : Type} {x : Except ε α} {f : α → Except ε β} {b : β} :
    x >>= f = .ok b ↔ ∃ a, x = .ok a ∧ f a = .ok b := by
  cases x <;> simp [bind, Except.bind]

namespace CommandLine

variable {env : Environment} {arguments : List String} {options : Options} {targets : Targets}
  {g : Grammar} {a : Analysis}

/-! ## Loading a grammar -/

/-- The grammar that the lines state, with its sets. -/
def analyzeLines (lines : List (List Char)) : Except AnalysisError (Grammar × Analysis) := do
  let g ← (Grammar.ofLines lines).mapError .grammar
  let a ← g.analyze.mapError .leftRecursion
  return (g, a)

theorem analyzeText_eq_analyzeLines (text : String) :
    analyzeText text = analyzeLines (Text.lines text.toList) :=
  rfl

theorem analyzeLines_eq_ok_iff {lines : List (List Char)} :
    analyzeLines lines = .ok (g, a) ↔ Grammar.ofLines lines = .ok g ∧ g.analyze = .ok a := by
  simp only [analyzeLines, bind_eq_ok_iff, mapError_eq_ok_iff]
  constructor
  · rintro ⟨g', hg, a', ha, heq⟩
    obtain ⟨rfl, rfl⟩ := Prod.mk.inj (Except.ok.inj heq)
    exact ⟨hg, ha⟩
  · rintro ⟨hg, ha⟩
    exact ⟨g, hg, a, ha, rfl⟩

theorem analyzeText_eq_ok_iff {text : String} :
    analyzeText text = .ok (g, a) ↔ Grammar.ofText text = .ok g ∧ g.analyze = .ok a := by
  rw [analyzeText_eq_analyzeLines, analyzeLines_eq_ok_iff]
  rfl

/-- The grammar from a source, with its sets. -/
def load (env : Environment) (source : Source) : Except Failure (Grammar × Analysis) :=
  match readLines env source with
  | .error e => .error e
  | .ok lines => (analyzeLines lines).mapError .analysis

theorem load_eq_ok_iff {source : Source} : load env source = .ok (g, a) ↔
    ∃ lines, readLines env source = .ok lines ∧ Grammar.ofLines lines = .ok g ∧
      g.analyze = .ok a := by
  unfold load
  cases readLines env source with
  | error e => simp
  | ok lines => simp [mapError_eq_ok_iff, analyzeLines_eq_ok_iff]

/-- A file is loaded as its text is analyzed. -/
theorem load_file {path text : String} (h : env.file? path = some (encode text)) :
    load env (.file path) = (analyzeText text).mapError .analysis := by
  have hlines : (env.file? path).bind fileLines? = some (Text.lines text.toList) := by
    rw [h, Option.bind_some, fileLines?, decode?_encode]
    rfl
  simp only [load, readLines, hlines, analyzeText_eq_analyzeLines]

theorem printAll_cons {format : Format} {output : Output} {text : String}
    (h : output.text? format g a = some text) (rest : List Output) :
    printAll format g a (output :: rest) =
      ⟨text ++ "\n" ++ (printAll format g a rest).output, (printAll format g a rest).result⟩ := by
  rw [printAll, h]

theorem printAll_singleton {format : Format} {output : Output} {text : String}
    (h : output.text? format g a = some text) :
    printAll format g a [output] = .ofText (text ++ "\n") := by
  rw [printAll_cons h, printAll, Printout.ofText, String.append_empty, Printout.ofText]

/-- What is printed for what was loaded. -/
def Printout.ofLoaded (format : Format) (outputs : List Output) :
    Except Failure (Grammar × Analysis) → Printout
  | .error e => failed e
  | .ok (g, a) => printAll format g a outputs

theorem toPrintout_process (format : Format) (outputs : List Output) (lines : List (List Char)) :
    (process format outputs lines).toPrintout =
      .ofLoaded format outputs ((analyzeLines lines).mapError .analysis) := by
  unfold process analyzeLines
  cases hg : Grammar.ofLines lines with
  | error e => rfl
  | ok g =>
    cases ha : g.analyze with
    | error r => simp [ha, Except.mapError, bind, Except.bind, Printout.ofLoaded]
    | ok a => simp [ha, Except.mapError, bind, Except.bind, pure, Except.pure, Printout.ofLoaded]

theorem toPrintout_runLogged (h : Targets.ofPositional options.positional = .ok targets) :
    (runLogged env options).toPrintout =
      .ofLoaded options.format targets.outputs (load env targets.source) := by
  unfold runLogged load
  cases hl : readLines env targets.source with
  | error e => simp only [h, hl, Printout.ofLoaded]
  | ok lines => simp only [h, hl, toPrintout_process]

theorem run_of_ofArguments? (h : Request.ofArguments? arguments = some (.run options)) :
    run env arguments =
      ⟨(runLogged env options).toPrintout,
        shown options.verbosity (runLogged env options).log⟩ := by
  rw [run, h]

/-- What is printed follows from what was loaded. -/
theorem toPrintout_run (h : Request.ofArguments? arguments = some (.run options))
    (ht : Targets.ofPositional options.positional = .ok targets) : (run env arguments).toPrintout =
      .ofLoaded options.format targets.outputs (load env targets.source) := by
  rw [run_of_ofArguments? h, toPrintout_runLogged ht]

/-- What went wrong, if anything did. -/
def Printout.failure? (p : Printout) : Option Failure :=
  match p.result with
  | .ok _ => none
  | .error e => some e

theorem shown_append (verbosity : Nat) (log log' : List Event) :
    shown verbosity (log ++ log') = shown verbosity log ++ shown verbosity log' :=
  List.filter_append _ _

namespace Session

variable {α β : Type} {console : Console} {outputs : List Output} {format : Format}

/-- What a session comes to on a console. -/
def on (session : Session α) (console : Console) : Except Failure α × Console :=
  session.run.run console

theorem on_bind (session : Session α) (next : α → Session β) (console : Console) :
    (session >>= next).on console = match session.on console with
      | (.ok x, console') => (next x).on console'
      | (.error e, console') => (.error e, console') := by
  rw [on, ExceptT.run_bind, StateT.run_bind, ← on]
  rcases session.on console with ⟨_ | _, _⟩ <;> rfl

/-- A step that may fail changes nothing. -/
theorem on_lift (result : Except Failure α) (console : Console) :
    (liftM result : Session α).on console = (result, console) :=
  rfl

theorem on_log (verbosity : Nat) (events : List Event) (console : Console) :
    (log verbosity events).on console =
      (.ok (), ⟨console.log ++ shown verbosity events, console.printed⟩) :=
  rfl

theorem on_print (text : String) (console : Console) :
    (print text).on console = (.ok (), ⟨console.log, console.printed ++ text⟩) :=
  rfl

theorem on_printOutputs (outputs : List Output) (console : Console) :
    (printOutputs format g a outputs).on console = ((printAll format g a outputs).result,
      ⟨console.log, console.printed ++ (printAll format g a outputs).output⟩) := by
  induction outputs generalizing console with
  | nil =>
    have hempty : console.printed ++ "" = console.printed := String.append_empty
    simp only [printAll, Printout.ofText, hempty]
    rfl
  | cons output rest ih =>
    rw [printOutputs, on_bind, on_lift, layOut, printAll]
    cases output.text? format g a with
    | none => simp [Printout.failed]
    | some text => simp [on_bind, on_print, ih, String.append_assoc]

/-- What is left on the console is what the outcome says, whether the session fails or not. -/
theorem on_perform (env : Environment) (options : Options) (console : Console) :
    (perform env options).on console = ((runLogged env options).result,
      ⟨console.log ++ shown options.verbosity (runLogged env options).log,
        console.printed ++ (runLogged env options).output⟩) := by
  have hnil : console.log ++ shown options.verbosity [] = console.log := List.append_nil _
  have hempty : console.printed ++ "" = console.printed := String.append_empty
  unfold perform runLogged
  cases ht : Targets.ofPositional options.positional with
  | error e => simp only [on_bind, on_lift, hnil, Printout.failed, hempty]
  | ok targets =>
    cases hl : readLines env targets.source with
    | error e => simp only [on_bind, on_lift, hl, hnil, Printout.failed, hempty]
    | ok lines =>
      unfold process loadGrammar
      cases hg : Grammar.ofLines lines with
      | error e =>
        simp only [on_bind, on_lift, on_log, hl, hg, Except.mapError, Printout.failed, hempty]
      | ok g =>
        unfold analyzeGrammar
        have hlog (events : List Event) : console.log ++ shown options.verbosity
            (.linesRead lines.length :: (g.loadEvents ++ .leftRecursionCheck :: events)) =
            console.log ++ shown options.verbosity [.linesRead lines.length] ++
              shown options.verbosity g.loadEvents ++
              shown options.verbosity [.leftRecursionCheck] ++ shown options.verbosity events := by
          simp only [List.append_assoc, ← shown_append, List.cons_append, List.nil_append]
        cases ha : g.analyze with
        | error r =>
          simp only [on_bind, on_lift, on_log, hl, hg, ha, Except.mapError, Printout.failed, hempty,
            Grammar.events, Grammar.analysisEvents, hlog]
          simp only [shown, List.filter_nil, List.append_nil]
        | ok a =>
          simp only [on_bind, on_lift, on_log, on_printOutputs, hl, hg, ha, Except.mapError,
            Grammar.events, Grammar.analysisEvents, hlog]

/-- The command leaves on the console what its outcome says. -/
theorem on_command (env : Environment) (arguments : List String) :
    (command env arguments).on .empty =
      ((run env arguments).result, ⟨(run env arguments).log, (run env arguments).output⟩) := by
  unfold command run
  cases Request.ofArguments? arguments with
  | none => rfl
  | some request =>
    cases request with
    | version => rfl
    | help => rfl
    | run options =>
      have hempty (text : String) : "" ++ text = text := String.empty_append
      simp only [on_perform, Console.empty, List.nil_append, hempty]

end Session

end CommandLine

end Lookahead
