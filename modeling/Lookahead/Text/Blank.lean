import Lookahead.Text.CodeRange

/-!
# Blank characters

The class `White_Space` of Unicode: what separates words, what is cut off at the ends of a piece
of text and what a blank line consists of.
-/

namespace Lookahead.Text

/-- The ranges of the class `White_Space`. -/
def blankRanges : List CodeRange :=
  [⟨0x9, 0xD⟩, ⟨0x20, 0x20⟩, ⟨0x85, 0x85⟩, ⟨0xA0, 0xA0⟩, ⟨0x1680, 0x1680⟩, ⟨0x2000, 0x200A⟩,
    ⟨0x2028, 0x2029⟩, ⟨0x202F, 0x202F⟩, ⟨0x205F, 0x205F⟩, ⟨0x3000, 0x3000⟩]

/-- Blank characters of any script, the line feed among them. -/
def isBlank (c : Char) : Bool :=
  inRanges blankRanges c

/-- A piece of text without a character that is not blank. -/
def isBlankText (cs : List Char) : Bool :=
  cs.all isBlank

@[simp] theorem isBlank_space : isBlank ' ' = true := by decide

@[simp] theorem isBlankText_replicate_space (n : Nat) :
    isBlankText (List.replicate n ' ') = true := by
  simp [isBlankText]

end Lookahead.Text
