import Lookahead.Report.Format

/-!
# What the command says about itself

The texts that are printed for a request of the version and of the help.
-/

namespace Lookahead.CommandLine

/-- The name and version of the command. -/
def nameAndVersion : String := "grammar-first-follow 0.1.0"

/-- What the command is for, how it is used, and what its arguments are. -/
def helpLines : List String :=
  ["zuyumi <zuyumi@sustech.moe>",
    "Computes FIRST and FOLLOW sets of a context-free grammar.",
    "",
    "USAGE:",
    "    grammar-first-follow [FLAGS] [ARGS]...",
    "",
    "FLAGS:",
    "    -h, --help       Prints help information",
    "    -j, --json       Print in JSON format",
    "    -l, --latex      Print in LaTeX format",
    "    -V, --version    Prints version information",
    "    -v               Increase message verbosity",
    "",
    "ARGS:",
    "    <ARGS>...    Outputs to print (prod, first, follow, ff; default ff) followed by an " ++
      "optional grammar file. Rules",
    "                 are read from stdin up to the first blank line if no file is given"]

def versionText : String :=
  nameAndVersion ++ "\n"

def helpText : String :=
  joinLines (nameAndVersion :: helpLines) ++ "\n"

end Lookahead.CommandLine
