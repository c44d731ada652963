import Lookahead.Json.RoundTrip

/-!
# The grammar of JSON

`Json.Denotes text v` says that the text is JSON and stands for the value `v`. It is the grammar
of JSON with the meaning of each of its forms, and says nothing about how a text is read. What no
report has is left out : numbers, `null`, blanks between the tokens, and pairs of escapes for one
character.

`denotes_renderChars` : the text of a value is JSON and stands for that value.
-/

namespace Lookahead.Json

/-- What stands between the quotation marks of a string, and the characters it stands for. -/
inductive StringDenotes : List Char → List Char → Prop
  | nil : StringDenotes [] []
  | plain {c : Char} {text s : List Char} (control : 0x20 ≤ c.toNat) (mark : c ≠ '"')
    (backslash : c ≠ '\\') (rest : StringDenotes text s) : StringDenotes (c :: text) (c :: s)
  | letter {l c : Char} {text s : List Char} (escape : unescape? l = some c)
    (rest : StringDenotes text s) : StringDenotes ('\\' :: l :: text) (c :: s)
  | code {a b c d x : Char} {text s : List Char}
    (escape : (codeUnit? a b c d).bind scalar? = some x) (rest : StringDenotes text s) :
    StringDenotes ('\\' :: 'u' :: a :: b :: c :: d :: text) (x :: s)

/-- A field of an object in the text, with the name and the value that it stands for. -/
structure FieldText where
  nameText : List Char
  name : String
  valueText : List Char
  value : Json

/-- The field as it stands in the text. -/
def FieldText.text (f : FieldText) : List Char :=
  '"' :: f.nameText ++ '"' :: ':' :: f.valueText

/-- The text is JSON and stands for the value. -/
inductive Denotes : List Char → Json → Prop
  | true : Denotes "true".toList (.bool true)
  | false : Denotes "false".toList (.bool false)
  | string {text : List Char} {s : String} (h : StringDenotes text s.toList) :
    Denotes ('"' :: text ++ ['"']) (.string s)
  | array (items : List (List Char × Json)) (h : ∀ item ∈ items, Denotes item.1 item.2) :
    Denotes ('[' :: [','].intercalate (items.map (·.1)) ++ [']']) (.array (items.map (·.2)))
  | object (fields : List FieldText)
    (names : ∀ f ∈ fields, StringDenotes f.nameText f.name.toList)
    (values : ∀ f ∈ fields, Denotes f.valueText f.value) :
    Denotes ('\x7b' :: [','].intercalate (fields.map (·.text)) ++ ['\x7d'])
      (.object (fields.map fun f => (f.name, f.value)))

/-- A character stands for itself in the way it is written. -/
theorem StringDenotes.escapeChar_append {text s : List Char} (c : Char)
    (h : StringDenotes text s) : StringDenotes (escapeChar c ++ text) (c :: s) := by
  unfold escapeChar
  iterate 7
    split
    · next heq =>
      subst heq
      exact .letter rfl h
  split
  · next hc =>
    refine .code ?_ h
    rw [codeUnit?_controlEscape _ hc, Char.ofNat_toNat]
  · exact .plain (by omega) (by assumption) (by assumption) h

theorem stringDenotes_flatMap_escapeChar (s : List Char) :
    StringDenotes (s.flatMap escapeChar) s := by
  induction s with
  | nil => exact .nil
  | cons c s ih => exact ih.escapeChar_append c

theorem renderItems_eq_intercalate (items : List Json) :
    renderItems items = [','].intercalate (items.map renderChars) := by
  induction items with
  | nil => simp [renderItems]
  | cons item rest ih =>
    cases rest with
    | nil => simp [renderItems]
    | cons next more =>
      rw [renderItems, ih]
      simp [List.intercalate_cons_cons]

theorem renderFields_eq_intercalate (fields : List (String × Json)) :
    renderFields fields =
      [','].intercalate (fields.map fun f => quote f.1 ++ ':' :: renderChars f.2) := by
  induction fields with
  | nil => simp [renderFields]
  | cons field rest ih =>
    cases rest with
    | nil => simp [renderFields]
    | cons next more =>
      rw [renderFields, ih]
      simp [List.intercalate_cons_cons]

/-- The text of a value stands for that value. -/
theorem denotes_renderChars (v : Json) : Denotes v.renderChars v := by
  match v with
  | .bool b =>
    cases b with
    | true => exact .true
    | false => exact .false
  | .string s => exact .string (stringDenotes_flatMap_escapeChar s.toList)
  | .array items =>
    have h : ∀ item ∈ items.map fun item => (item.renderChars, item), Denotes item.1 item.2 := by
      intro item hitem
      obtain ⟨v, hv, rfl⟩ := List.mem_map.mp hitem
      exact denotes_renderChars v
    have := Denotes.array _ h
    simpa [renderChars, renderItems_eq_intercalate, Function.comp_def] using this
  | .object fields =>
    let texts := fields.map fun f =>
      FieldText.mk (f.1.toList.flatMap escapeChar) f.1 f.2.renderChars f.2
    have hnames : ∀ f ∈ texts, StringDenotes f.nameText f.name.toList := by
      intro f hf
      obtain ⟨field, -, rfl⟩ := List.mem_map.mp hf
      exact stringDenotes_flatMap_escapeChar field.1.toList
    have hvalues : ∀ f ∈ texts, Denotes f.valueText f.value := by
      intro f hf
      obtain ⟨⟨name, value⟩, hfield, rfl⟩ := List.mem_map.mp hf
      exact denotes_renderChars value
    have := Denotes.object texts hnames hvalues
    simpa [texts, renderChars, renderFields_eq_intercalate, Function.comp_def, FieldText.text,
      quote] using this
termination_by sizeOf v
decreasing_by
  · have := List.sizeOf_lt_of_mem hv
    simp only [Json.array.sizeOf_spec]
    omega
  · have := List.sizeOf_lt_of_mem hfield
    simp only [Json.object.sizeOf_spec, Prod.mk.sizeOf_spec] at this ⊢
    omega

end Lookahead.Json
