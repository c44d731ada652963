import Lookahead.Json.Basic

/-!
# Reading JSON

`Json.read?` reads the text of a value. Blanks between the tokens are allowed, and so are all
escapes in strings but the pairs of them that stand for one character. Numbers and `null` are not
among the values and are refused. Reading is done in two steps, from characters to tokens and from
tokens to values.

* `length_string?` : what comes after a string is shorter than the text.
-/

namespace Lookahead.Json

/-- The smallest pieces of JSON text. -/
inductive Token
  | openObject
  | closeObject
  | openArray
  | closeArray
  | colon
  | comma
  | bool (b : Bool)
  | string (s : String)
deriving DecidableEq, Repr

/-! ## Strings -/

/-- The value of a hexadecimal digit. -/
def hexValue? (c : Char) : Option Nat :=
  if '0' ≤ c ∧ c ≤ '9' then some (c.toNat - '0'.toNat)
  else if 'a' ≤ c ∧ c ≤ 'f' then some (c.toNat - 'a'.toNat + 10)
  else if 'A' ≤ c ∧ c ≤ 'F' then some (c.toNat - 'A'.toNat + 10)
  else none

/-- The code unit that four hexadecimal digits write. -/
def codeUnit? (a b c d : Char) : Option Nat := do
  return 4096 * (← hexValue? a) + 256 * (← hexValue? b) + 16 * (← hexValue? c) + (← hexValue? d)

/-- The character of a letter behind a backslash. -/
def unescape? : Char → Option Char
  | '"' => some '"'
  | '\\' => some '\\'
  | '/' => some '/'
  | 'b' => some '\x08'
  | 't' => some '\x09'
  | 'n' => some '\x0a'
  | 'f' => some '\x0c'
  | 'r' => some '\x0d'
  | _ => none

/-- The character that a code unit stands for by itself. -/
def scalar? (unit : Nat) : Option Char :=
  if 0xD800 ≤ unit ∧ unit < 0xE000 then none else some (Char.ofNat unit)

/-- A string behind its first quotation mark, with what comes after the second. -/
def string? : List Char → Option (List Char × List Char)
  | [] => none
  | '"' :: rest => some ([], rest)
  | '\\' :: 'u' :: a :: b :: c :: d :: rest =>
    (codeUnit? a b c d).bind scalar? |>.bind fun x =>
      (string? rest).map fun (s, after) => (x :: s, after)
  | '\\' :: c :: rest =>
    (unescape? c).bind fun x => (string? rest).map fun (s, after) => (x :: s, after)
  | c :: rest =>
    if c.toNat < 0x20 ∨ c = '\\' then none
    else (string? rest).map fun (s, after) => (c :: s, after)

theorem length_string? {cs s after : List Char} (h : string? cs = some (s, after)) :
    after.length < cs.length := by
  fun_induction string? cs generalizing s after with
  | case1 => simp at h
  | case2 rest => simp_all
  | case3 a b c d rest ih =>
    simp only [Option.bind_eq_some_iff, Option.map_eq_some_iff, Prod.mk.injEq] at h
    obtain ⟨_, _, ⟨s', after'⟩, hs, _, rfl⟩ := h
    have := ih hs
    simp only [List.length_cons]
    omega
  | case4 c rest _ ih =>
    simp only [Option.bind_eq_some_iff, Option.map_eq_some_iff, Prod.mk.injEq] at h
    obtain ⟨_, _, ⟨s', after'⟩, hs, _, rfl⟩ := h
    have := ih hs
    simp only [List.length_cons]
    omega
  | case5 => simp at h
  | case6 c rest _ _ _ _ ih =>
    simp only [Option.map_eq_some_iff, Prod.mk.injEq] at h
    obtain ⟨⟨s', after'⟩, hs, _, rfl⟩ := h
    have := ih hs
    simp only [List.length_cons]
    omega

/-! ## Tokens -/

/-- The blanks between tokens. -/
def isSpace (c : Char) : Bool :=
  c = ' ' || c = '\t' || c = '\n' || c = '\r'

/-- The token that a single character is. -/
def mark? : Char → Option Token
  | '\x7b' => some .openObject
  | '\x7d' => some .closeObject
  | '[' => some .openArray
  | ']' => some .closeArray
  | ':' => some .colon
  | ',' => some .comma
  | _ => none

/-- The tokens of a text. -/
def tokens? : List Char → Option (List Token)
  | [] => some []
  | 't' :: 'r' :: 'u' :: 'e' :: rest => (tokens? rest).map (.bool true :: ·)
  | 'f' :: 'a' :: 'l' :: 's' :: 'e' :: rest => (tokens? rest).map (.bool false :: ·)
  | '"' :: rest =>
    match _h : string? rest with
    | none => none
    | some (s, after) => (tokens? after).map (.string (String.ofList s) :: ·)
  | c :: rest =>
    if isSpace c then tokens? rest
    else (mark? c).bind fun token => (tokens? rest).map (token :: ·)
termination_by cs => cs.length
decreasing_by
  · simp only [List.length_cons]
    omega
  · simp only [List.length_cons]
    omega
  · exact Nat.lt_succ_of_lt (length_string? _h)
  · exact Nat.lt_succ_self _
  · exact Nat.lt_succ_self _

/-! ## Values -/

mutual

/-- A value in front of a list of tokens, with the tokens behind it. The number bounds how deep
values stand in each other and how many stand side by side. -/
def value? : Nat → List Token → Option (Json × List Token)
  | 0, _ => none
  | _ + 1, .bool b :: rest => some (.bool b, rest)
  | _ + 1, .string s :: rest => some (.string s, rest)
  | _ + 1, .openArray :: .closeArray :: rest => some (.array [], rest)
  | n + 1, .openArray :: rest => (items? n rest).map fun (items, after) => (.array items, after)
  | _ + 1, .openObject :: .closeObject :: rest => some (.object [], rest)
  | n + 1, .openObject :: rest =>
    (fields? n rest).map fun (fields, after) => (.object fields, after)
  | _ + 1, _ => none

/-- The items of an array up to its closing bracket, with the tokens behind it. -/
def items? : Nat → List Token → Option (List Json × List Token)
  | 0, _ => none
  | n + 1, tokens =>
    match value? n tokens with
    | some (item, .closeArray :: after) => some ([item], after)
    | some (item, .comma :: rest) =>
      (items? n rest).map fun (items, after) => (item :: items, after)
    | _ => none

/-- The fields of an object up to its closing brace, with the tokens behind it. -/
def fields? : Nat → List Token → Option (List (String × Json) × List Token)
  | n + 1, .string key :: .colon :: tokens =>
    match value? n tokens with
    | some (value, .closeObject :: after) => some ([(key, value)], after)
    | some (value, .comma :: rest) =>
      (fields? n rest).map fun (fields, after) => ((key, value) :: fields, after)
    | _ => none
  | _, _ => none

end

/-- The value that a text stands for. -/
def read? (text : String) : Option Json :=
  (tokens? text.toList).bind fun tokens =>
    match value? tokens.length tokens with
    | some (v, []) => some v
    | _ => none

end Lookahead.Json
