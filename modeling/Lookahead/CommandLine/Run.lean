import Lookahead.CommandLine.Arguments
import Lookahead.CommandLine.Help
import Lookahead.CommandLine.Input
import Lookahead.Log
import Lookahead.Report.Productions
import Lookahead.Report.Sets

/-!
# Running the command

The positional arguments name the outputs to print and then, at most, the grammar file. The
command reads the grammar, analyzes it and prints the outputs one after the other. Nothing is
printed before all of the grammar is read and analyzed. After that only one thing can go wrong : an
output with a column that is too wide for padding ends the run where it stands.

* `Targets.ofPositional` : the outputs and the grammar file.
* `run` : the log of a run, what is printed, and what went wrong, if anything did.
-/

namespace Lookahead.CommandLine

/-- What can be printed for a grammar. -/
inductive Output
  | productions
  | first
  | follow
  | summary
deriving DecidableEq, Repr

namespace Output

/-- The output with the given name. -/
def ofName? (name : String) : Option Output :=
  if name = "prod" then some productions
  else if name = "first" then some first
  else if name = "follow" then some follow
  else if name = "ff" then some summary
  else none

/-- The text of an output, if it can be printed. -/
def text? (format : Format) (g : Grammar) (a : Analysis) : Output → Option String
  | productions => Printable.print? format g.productionReport
  | first => Printable.print? format (g.firstReport a)
  | follow => Printable.print? format (g.followReport a)
  | summary => Printable.print? format (g.summary a)

end Output

/-- What keeps a command from printing, or from going on. -/
inductive Failure
  | usage
  | unexpectedArgument (argument : String)
  | unreadableFile (path : String)
  | unreadableInput
  | analysis (error : AnalysisError)
  | columnTooWide
deriving DecidableEq, Repr

namespace Failure

def message : Failure → String
  | usage => "Invalid command line"
  | unexpectedArgument argument =>
    "Unexpected argument '" ++ argument ++ "'; outputs must come before the grammar file"
  | unreadableFile path => "Failed to read grammar file " ++ path
  | unreadableInput => "Failed to read grammar from stdin"
  | analysis error => error.message
  | columnTooWide => "Formatting argument out of range"

/-- The exit code of a command that fails. A column that is too wide is no error that the command
reports : it breaks the command off. -/
def exitCode : Failure → Nat
  | columnTooWide => 101
  | _ => 1

end Failure

/-- Where the grammar is. -/
inductive Source
  | input
  | file (path : String)
deriving DecidableEq, Repr

/-- What to print, and from what grammar. -/
structure Targets where
  outputs : List Output
  source : Source
deriving DecidableEq, Repr

namespace Targets

/-- Splits positional arguments into the names of outputs in front and the rest. -/
def splitOutputs : List String → List Output × List String
  | [] => ([], [])
  | name :: rest =>
    match Output.ofName? name with
    | some output => ((output :: (splitOutputs rest).1), (splitOutputs rest).2)
    | none => ([], name :: rest)

/-- Without the name of an output the summary is printed, and without a file standard input is
read. -/
def ofPositional (positional : List String) : Except Failure Targets :=
  let outputs := (splitOutputs positional).1
  let outputs := if outputs.isEmpty then [.summary] else outputs
  match (splitOutputs positional).2 with
  | [] => .ok ⟨outputs, .input⟩
  | [path] => .ok ⟨outputs, .file path⟩
  | _ :: argument :: _ => .error (.unexpectedArgument argument)

end Targets

/-- What a command can read: the bytes of standard input, and of the files there are. -/
structure Environment where
  input : List UInt8
  file? : String → Option (List UInt8)

/-- What is printed on standard output, and what goes wrong. -/
structure Printout where
  output : String
  result : Except Failure Unit

namespace Printout

/-- Nothing is printed. -/
def failed (e : Failure) : Printout :=
  ⟨"", .error e⟩

/-- A text is printed, and nothing goes wrong. -/
def ofText (text : String) : Printout :=
  ⟨text, .ok ()⟩

def exitCode (p : Printout) : Nat :=
  match p.result with
  | .ok _ => 0
  | .error e => e.exitCode

end Printout

/-- What a command did. -/
structure Outcome extends Printout where
  log : List Event

/-- The lines of the grammar. -/
def readLines (env : Environment) : Source → Except Failure (List (List Char))
  | .file path =>
    match (env.file? path).bind fileLines? with
    | some lines => .ok lines
    | none => .error (.unreadableFile path)
  | .input =>
    match inputLines? env.input with
    | some lines => .ok lines
    | none => .error .unreadableInput

/-- The outputs, each with a feed behind it, up to the first that cannot be printed. -/
def printAll (format : Format) (g : Grammar) (a : Analysis) : List Output → Printout
  | [] => .ofText ""
  | output :: rest =>
    match output.text? format g a with
    | none => .failed .columnTooWide
    | some text =>
      let behind := printAll format g a rest
      ⟨text ++ "\n" ++ behind.output, behind.result⟩

/-- What becomes of the lines of a grammar, with everything logged. -/
def process (format : Format) (outputs : List Output) (lines : List (List Char)) : Outcome :=
  match Grammar.ofLines lines with
  | .error e => ⟨.failed (.analysis (.grammar e)), [.linesRead lines.length]⟩
  | .ok g =>
    { toPrintout :=
        match g.analyze with
        | .error r => .failed (.analysis (.leftRecursion r))
        | .ok a => printAll format g a outputs
      log := .linesRead lines.length :: g.events }

/-- Runs the command with everything logged. -/
def runLogged (env : Environment) (options : Options) : Outcome :=
  match Targets.ofPositional options.positional with
  | .error e => ⟨.failed e, []⟩
  | .ok targets =>
    match readLines env targets.source with
    | .error e => ⟨.failed e, []⟩
    | .ok lines => process options.format targets.outputs lines

/-- The events that are shown: each flag for more detail adds a level to the warnings. -/
def shown (verbosity : Nat) (log : List Event) : List Event :=
  log.filter fun event => event.level.detail ≤ verbosity

/-- Runs the command with the given arguments. -/
def run (env : Environment) (arguments : List String) : Outcome :=
  match Request.ofArguments? arguments with
  | none => ⟨.failed .usage, []⟩
  | some .version => ⟨.ofText versionText, []⟩
  | some .help => ⟨.ofText helpText, []⟩
  | some (.run options) =>
    let outcome := runLogged env options
    ⟨outcome.toPrintout, shown options.verbosity outcome.log⟩

/-- What a command with the given arguments reads, if it reads anything. -/
def source? (arguments : List String) : Option Source :=
  match Request.ofArguments? arguments with
  | some (.run options) => (Targets.ofPositional options.positional).toOption.map (·.source)
  | _ => none

end Lookahead.CommandLine
