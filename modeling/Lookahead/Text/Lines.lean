/-!
# Lines

A line ends at a feed, and a return directly before that feed belongs to the end of the line as
well. What follows the last feed is a line of its own unless it is empty. The cut is the same for
characters and for bytes, so `linesBy` is stated for any two marks.
-/

namespace Lookahead.Text

variable {α : Type} [BEq α]

/-- The line without the return at its end, if it has one. -/
def dropReturn (ret : α) (line : List α) : List α :=
  if line.getLast? == some ret then line.dropLast else line

/-- The lines among the pieces between feeds: all but the last piece were ended by a feed. -/
def linesOfPieces (ret : α) : List (List α) → List (List α)
  | [] => []
  | [last] => if last.isEmpty then [] else [last]
  | line :: next :: pieces => dropReturn ret line :: linesOfPieces ret (next :: pieces)

/-- The lines of a sequence, without what ends them. -/
def linesBy (feed ret : α) (xs : List α) : List (List α) :=
  linesOfPieces ret (xs.splitOn feed)

/-- The lines of a text: a line feed ends a line, and so does a carriage return with a line feed. -/
def lines (cs : List Char) : List (List Char) :=
  linesBy '\n' '\r' cs

@[simp] theorem linesBy_nil (feed ret : α) : linesBy feed ret [] = [] := by
  simp [linesBy, linesOfPieces]

end Lookahead.Text
