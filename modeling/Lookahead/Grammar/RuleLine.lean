import Lookahead.Grammar.Rules
import Lookahead.Text.Words
import Lookahead.Text.Lines
import Lookahead.Text.Alphanumeric

/-!
# Rule lines

A rule line is `name -> alternative | … | alternative`. The name is an identifier other than `ε`,
an alternative is a list of words, and a line has exactly one arrow. Blank lines are skipped but
counted.

* `Rule.ofLine` reads one line, or says which of the six faults it has; the checks come in the
  order in which `RuleFault` lists them.
* `Grammar.ofLines` and `Grammar.ofText` read a whole grammar; the first faulty line stops the
  reading.
-/

namespace Lookahead

open Text

/-- The characters of an identifier: letters and numbers of any script, and the low line. -/
def isIdentifierChar (c : Char) : Bool :=
  isAlphanumeric c || c == '_'

/-- The pieces of a text between its arrows `->`. -/
def arrowPieces : List Char → List (List Char)
  | [] => [[]]
  | '-' :: '>' :: rest => [] :: arrowPieces rest
  | c :: rest => (arrowPieces rest).modifyHead (c :: ·)

/-- The arrow between the two sides of a rule. -/
def arrow : List Char := ['-', '>']

/-- The alternatives of a right side: what stands between its bars, word by word. -/
def alternativesOfBody (body : List Char) : List (List String) :=
  (body.splitOn '|').map fun piece => (words piece).map String.ofList

/-- The rule with the given text before and after its arrow. -/
def Rule.ofSides (before after : List Char) : Except RuleFault Rule :=
  let left := trim before
  if left.isEmpty then .error .emptyLeft
  else if !left.all isIdentifierChar then .error .leftNotIdentifier
  else if String.ofList left = epsilonName then .error .leftEpsilon
  else if isBlankText after then .error .emptyRight
  else .ok ⟨String.ofList left, alternativesOfBody after⟩

/-- The rule that a line states. -/
def Rule.ofLine (line : List Char) : Except RuleFault Rule :=
  match arrowPieces line with
  | [before, after] => Rule.ofSides before after
  | _ :: _ :: _ :: _ => .error .tooManyArrows
  | _ => .error .missingArrow

namespace Rules

/-- The rules that the lines state, the first of them counted as line `number`. -/
def ofLines (number : Nat) : List (List Char) → Except GrammarError (List Rule)
  | [] => .ok []
  | line :: rest =>
    if isBlankText line then ofLines (number + 1) rest
    else match Rule.ofLine line with
      | .error fault => .error (.malformedRule number fault)
      | .ok rule => (ofLines (number + 1) rest).map (rule :: ·)

end Rules

namespace Grammar

/-- The grammar that the lines state. -/
def ofLines (lines : List (List Char)) : Except GrammarError Grammar :=
  Rules.ofLines 1 lines >>= ofRules

/-- The grammar that a text states, line by line. -/
def ofText (text : String) : Except GrammarError Grammar :=
  ofLines (lines text.toList)

end Grammar

theorem arrowPieces_ne_nil (cs : List Char) : arrowPieces cs ≠ [] := by
  fun_induction arrowPieces cs with
  | case1 => simp
  | case2 => simp
  | case3 _ _ _ ih => simpa using ih

theorem arrowPieces_arrow_append (cs : List Char) :
    arrowPieces (arrow ++ cs) = [] :: arrowPieces cs := by
  simp [arrow, arrowPieces]

end Lookahead
