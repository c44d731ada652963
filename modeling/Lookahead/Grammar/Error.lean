/-!
# Why a text is not a grammar

A line that is neither blank nor a rule has one fault, the first that reading it meets; a text
without any rule is at fault as a whole.
-/

namespace Lookahead

/-- What keeps a line from being a rule `name -> alternatives`. -/
inductive RuleFault
  | missingArrow
  | tooManyArrows
  | emptyLeft
  | leftNotIdentifier
  | leftEpsilon
  | emptyRight
deriving DecidableEq, Repr

namespace RuleFault

def message : RuleFault → String
  | missingArrow => "missing \"->\""
  | tooManyArrows => "too many \"->\""
  | emptyLeft => "empty left side"
  | leftNotIdentifier => "left side is not an identifier"
  | leftEpsilon => "ε cannot have productions"
  | emptyRight => "empty right side"

end RuleFault

/-- What keeps lines from being a grammar. Lines are counted from 1, the blank ones included. -/
inductive GrammarError
  | malformedRule (line : Nat) (fault : RuleFault)
  | noRules
deriving DecidableEq, Repr

namespace GrammarError

def message : GrammarError → String
  | malformedRule line fault => "Line " ++ toString line ++ ": malformed rule: " ++ fault.message
  | noRules => "Grammar contains no rules"

end GrammarError

end Lookahead
