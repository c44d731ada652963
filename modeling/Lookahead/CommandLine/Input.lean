import Lookahead.Text.Blank
import Lookahead.Text.Lines

/-!
# Grammar lines from bytes

A grammar file is read as a whole: it has to be UTF-8, and all its lines count. Standard input is
read line by line up to the first blank line, and nothing behind that line is looked at.

A mark for the order of bytes at the start is text like any other.

* `decode?_eq_some_iff` : bytes decode to a text exactly if they are its encoding.
-/

namespace Lookahead.CommandLine

open Text

/-- The bytes of a text in UTF-8. -/
def encode (text : String) : List UInt8 :=
  text.toUTF8.data.toList

/-- The characters that bytes encode in UTF-8. -/
def decode? (bytes : List UInt8) : Option (List Char) :=
  (String.fromUTF8? bytes.toByteArray).map String.toList

theorem toByteArray_data_toList (bytes : ByteArray) : bytes.data.toList.toByteArray = bytes := by
  apply ByteArray.ext
  rw [List.data_toByteArray, Array.toArray_toList]

theorem decode?_encode (text : String) : decode? (encode text) = some text.toList := by
  unfold decode? encode
  rw [toByteArray_data_toList, String.toUTF8_eq_toByteArray, String.fromUTF8?,
    dif_pos text.isValidUTF8]
  rfl

theorem eq_encode_of_decode? {bytes : List UInt8} {cs : List Char} (h : decode? bytes = some cs) :
    bytes = encode (String.ofList cs) := by
  simp only [decode?, Option.map_eq_some_iff, String.fromUTF8?] at h
  obtain ⟨text, ht, rfl⟩ := h
  split at ht
  · next hv =>
    obtain rfl := Option.some.inj ht
    have hb : (String.fromUTF8 bytes.toByteArray hv).toUTF8 = bytes.toByteArray := rfl
    rw [String.ofList_toList, encode, hb, List.data_toByteArray]
  · simp at ht

theorem decode?_eq_some_iff {bytes : List UInt8} {cs : List Char} :
    decode? bytes = some cs ↔ bytes = encode (String.ofList cs) := by
  constructor
  · exact eq_encode_of_decode?
  · rintro rfl
    rw [decode?_encode, String.toList_ofList]

/-- The lines of a grammar file. -/
def fileLines? (bytes : List UInt8) : Option (List (List Char)) :=
  (decode? bytes).map lines

/-- The lines before the first blank one, unless one of them is not UTF-8. -/
def rulesBeforeBlank? : List (List UInt8) → Option (List (List Char))
  | [] => some []
  | bytes :: rest =>
    match decode? bytes with
    | none => none
    | some line => if isBlankText line then some [] else (rulesBeforeBlank? rest).map (line :: ·)

/-- The lines of bytes: a line feed ends a line, and so does a carriage return with a line feed. -/
def byteLines (bytes : List UInt8) : List (List UInt8) :=
  linesBy 0x0a 0x0d bytes

/-- The lines of standard input up to the first blank one. -/
def inputLines? (bytes : List UInt8) : Option (List (List Char)) :=
  rulesBeforeBlank? (byteLines bytes)

end Lookahead.CommandLine
