import Lookahead.Report.Format

/-!
# Arguments

The arguments of a command are flags and positional arguments in any order. A flag has a letter,
and all but one have a word: `-l` or `--latex`, `-j` or `--json`, `-v`, `-V` or `--version`, `-h` or
`--help`. Letters can share a dash, and `--` makes everything behind it positional. A lone dash is
positional too.

* `readArguments` : the flags and positional arguments that the arguments spell, one by one.
* `Request.ofArguments?` : what they ask for. The version or the help is given as soon as it is
  asked for. Before that a flag that does not exist spoils the command, and at the end so does a
  repeated format, or two formats.
-/

namespace Lookahead.CommandLine

/-- The flags of the command. -/
inductive Flag
  | latex
  | json
  | verbose
  | version
  | help
deriving DecidableEq, Repr

namespace Flag

/-- The flag with the given letter. -/
def ofLetter? : Char → Option Flag
  | 'l' => some latex
  | 'j' => some json
  | 'v' => some verbose
  | 'V' => some version
  | 'h' => some help
  | _ => none

/-- The flag with the given word. -/
def ofWord? (word : String) : Option Flag :=
  if word = "latex" then some latex
  else if word = "json" then some json
  else if word = "version" then some version
  else if word = "help" then some help
  else none

end Flag

/-- What a part of an argument stands for. -/
inductive Item
  | flag (f : Flag)
  | unknownFlag
  | positional (value : String)
deriving DecidableEq, Repr

namespace Item

def ofFlag? : Option Flag → Item
  | some f => flag f
  | none => unknownFlag

/-- The word of a long flag: more dashes in front of it do not matter, nor does a value given
behind an equals sign. -/
def longWord (cs : List Char) : String :=
  String.ofList ((cs.dropWhile (· = '-')).takeWhile (· ≠ '='))

/-- What one argument stands for, as long as flags are read. -/
def ofArgument (argument : String) : List Item :=
  match argument.toList with
  | '-' :: '-' :: word => [ofFlag? (Flag.ofWord? (longWord word))]
  | '-' :: letter :: letters => (letter :: letters).map fun c => ofFlag? (Flag.ofLetter? c)
  | _ => [positional argument]

end Item

/-- The argument that ends the flags. -/
def endOfFlags : String := "--"

/-- What the arguments stand for, in order. -/
def readArguments : List String → List Item
  | [] => []
  | argument :: rest =>
    if argument = endOfFlags then rest.map .positional
    else Item.ofArgument argument ++ readArguments rest

/-- How to run: the format, how much to log, and the positional arguments. -/
structure Options where
  format : Format
  verbosity : Nat
  positional : List String
deriving DecidableEq, Repr

/-- What the arguments ask for. -/
inductive Request
  | version
  | help
  | run (options : Options)
deriving DecidableEq, Repr

/-- The value of a positional argument. -/
def Item.value? : Item → Option String
  | positional value => some value
  | _ => none

namespace Options

/-- The options that the items make, unless a format is repeated or there are two of them. -/
def ofItems? (items : List Item) : Option Options :=
  let latex := items.count (.flag .latex)
  let json := items.count (.flag .json)
  if 1 < latex + json then none
  else some {
    format := if latex = 1 then .latex else if json = 1 then .json else .plain
    verbosity := items.count (.flag .verbose)
    positional := items.filterMap Item.value? }

end Options

namespace Request

/-- Whether an item decides what becomes of the command, whatever follows. -/
def isDecisive (item : Item) : Bool :=
  item = .unknownFlag || item = .flag .version || item = .flag .help

/-- The request that the items make, if they make one. -/
def ofItems? (items : List Item) : Option Request :=
  match items.find? isDecisive with
  | some (.flag .version) => some .version
  | some (.flag .help) => some .help
  | some _ => none
  | none => (Options.ofItems? items).map .run

/-- The request that the arguments make, if they make one. -/
def ofArguments? (arguments : List String) : Option Request :=
  ofItems? (readArguments arguments)

end Request

end Lookahead.CommandLine
