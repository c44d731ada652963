import Lookahead.CommandLine.Run

/-!
# Running the command step by step

`run` says what becomes of a command as a whole. Here a command is carried out on a console, one
step after the other. What has been logged or printed stays there, whatever goes wrong later : a
step that fails ends the session and takes nothing back.

* `Session.perform` : reads the grammar, analyzes it, and prints the outputs one by one.
* `Session.command` : what the arguments ask for.
-/

namespace Lookahead.CommandLine

/-- What has been logged and printed so far. -/
structure Console where
  log : List Event
  printed : String

/-- A console on which nothing has happened. -/
def Console.empty : Console :=
  ⟨[], ""⟩

/-- Steps on a console, until one of them fails. -/
abbrev Session := ExceptT Failure (StateM Console)

namespace Session

/-- Logs the events that are shown. -/
def log (verbosity : Nat) (events : List Event) : Session Unit :=
  modify fun console => { console with log := console.log ++ shown verbosity events }

def print (text : String) : Session Unit :=
  modify fun console => { console with printed := console.printed ++ text }

/-- The text of an output, unless it has a column that is too wide. -/
def layOut (format : Format) (g : Grammar) (a : Analysis) (output : Output) :
    Except Failure String :=
  match output.text? format g a with
  | some text => .ok text
  | none => .error .columnTooWide

/-- Prints the outputs, each with a feed behind it. -/
def printOutputs (format : Format) (g : Grammar) (a : Analysis) : List Output → Session Unit
  | [] => pure ()
  | output :: rest => do
    let text ← layOut format g a output
    print (text ++ "\n")
    printOutputs format g a rest

/-- The grammar that the lines state. -/
def loadGrammar (lines : List (List Char)) : Except Failure Grammar :=
  (Grammar.ofLines lines).mapError fun e => .analysis (.grammar e)

/-- The sets of the grammar, unless it is left recursive. -/
def analyzeGrammar (g : Grammar) : Except Failure Analysis :=
  g.analyze.mapError fun r => .analysis (.leftRecursion r)

/-- Finds out what to print and from where, reads the grammar, analyzes it, and prints. -/
def perform (env : Environment) (options : Options) : Session Unit := do
  let targets ← Targets.ofPositional options.positional
  let lines ← readLines env targets.source
  log options.verbosity [.linesRead lines.length]
  let g ← loadGrammar lines
  log options.verbosity g.loadEvents
  log options.verbosity [.leftRecursionCheck]
  let a ← analyzeGrammar g
  log options.verbosity a.events
  printOutputs options.format g a targets.outputs

/-- Does what the arguments ask for. -/
def command (env : Environment) (arguments : List String) : Session Unit :=
  match Request.ofArguments? arguments with
  | none => throw .usage
  | some .version => print versionText
  | some .help => print helpText
  | some (.run options) => perform env options

end Session

end Lookahead.CommandLine
