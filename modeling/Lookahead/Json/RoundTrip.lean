import Lookahead.Json.Reader

/-!
# Reading back what was written

`read?_render` : the text of a value is read back as that value. The proof goes the two steps of
the reader. The characters of a value are its tokens (`tokens?_renderChars`), and its tokens are
the value (`value?_tokens`), whatever comes after them.
-/

namespace Lookahead.Json

/-! ## Strings -/

/-- The escape of a control character stands for it. -/
theorem codeUnit?_controlEscape : ∀ n < 0x20,
    (codeUnit? '0' '0' (Nat.digitChar (n / 16)) (Nat.digitChar (n % 16))).bind scalar?
      = some (Char.ofNat n) := by
  decide

/-- A character is read back from the way it is written. -/
theorem string?_escapeChar (c : Char) (rest : List Char) :
    string? (escapeChar c ++ rest) = (string? rest).map fun (s, after) => (c :: s, after) := by
  unfold escapeChar
  iterate 7
    split
    · next h =>
      subst h
      simp [string?, unescape?]
  split
  · next h =>
    simp only [controlEscape, List.cons_append, List.nil_append]
    rw [string?, codeUnit?_controlEscape _ h, Char.ofNat_toNat]
    rfl
  · next hq hb _ _ _ _ _ hc =>
    have hk : ¬(c.toNat < 0x20 ∨ c = '\\') := fun h => h.elim hc hb
    rw [List.singleton_append, string?.eq_5, if_neg hk]
    · exact hq
    · exact fun _ _ _ _ _ h _ => hb h
    · exact fun _ _ h _ => hb h

/-- The characters of a string are read back up to its closing quotation mark. -/
theorem string?_flatMap_escapeChar (s rest : List Char) :
    string? (s.flatMap escapeChar ++ '"' :: rest) = some (s, rest) := by
  induction s with
  | nil => simp [string?]
  | cons c s ih =>
    rw [List.flatMap_cons, List.append_assoc, string?_escapeChar, ih]
    rfl

/-! ## Tokens of a value -/

mutual

/-- The tokens that a value is written with. -/
def tokens : Json → List Token
  | .bool b => [.bool b]
  | .string s => [.string s]
  | .array items => .openArray :: itemTokens items ++ [.closeArray]
  | .object fields => .openObject :: fieldTokens fields ++ [.closeObject]

/-- The tokens of the items of an array, with commas between them. -/
def itemTokens : List Json → List Token
  | [] => []
  | item :: rest =>
    tokens item ++ match rest with
      | [] => []
      | _ :: _ => .comma :: itemTokens rest

/-- The tokens of the fields of an object, with commas between them. -/
def fieldTokens : List (String × Json) → List Token
  | [] => []
  | (key, value) :: rest =>
    .string key :: .colon :: tokens value ++ match rest with
      | [] => []
      | _ :: _ => .comma :: fieldTokens rest

end

theorem tokens?_quote (s : String) (rest : List Char) :
    tokens? (quote s ++ rest) = (tokens? rest).map (.string s :: ·) := by
  have h : string? (s.toList.flatMap escapeChar ++ '"' :: rest) = some (s.toList, rest) :=
    string?_flatMap_escapeChar _ _
  simp only [quote, List.cons_append, List.append_assoc, List.nil_append]
  rw [tokens?.eq_4]
  split
  · next hn => simp [hn] at h
  · next hs =>
    rw [h] at hs
    obtain ⟨rfl, rfl⟩ := by simpa using hs
    simp

theorem tokens?_mark {c : Char} {token : Token} (h : mark? c = some token) (rest : List Char) :
    tokens? (c :: rest) = (tokens? rest).map (token :: ·) := by
  have hc : c ≠ 't' ∧ c ≠ 'f' ∧ c ≠ '"' ∧ isSpace c = false := by
    unfold mark? at h
    split at h <;> simp_all [isSpace]
  obtain ⟨h1, h2, h3, h4⟩ := hc
  rw [tokens?.eq_5]
  · simp [h4, h]
  · rintro _ rfl
    exact absurd rfl h1
  · rintro _ rfl
    exact absurd rfl h2
  · rintro rfl
    exact absurd rfl h3

mutual

/-- The characters of a value are its tokens, whatever comes after them. -/
theorem tokens?_renderChars (v : Json) (rest : List Char) :
    tokens? (renderChars v ++ rest) = (tokens? rest).map (tokens v ++ ·) := by
  match v with
  | .bool true => simp [renderChars, tokens, tokens?.eq_2]
  | .bool false => simp [renderChars, tokens, tokens?.eq_3]
  | .string s => simp [renderChars, tokens, tokens?_quote]
  | .array items =>
    have ho : mark? '[' = some .openArray := rfl
    have hc : mark? ']' = some .closeArray := rfl
    simp only [renderChars, tokens, List.cons_append, List.append_assoc, List.nil_append]
    rw [tokens?_mark ho, tokens?_renderItems items, tokens?_mark hc]
    simp [Function.comp_def]
  | .object fields =>
    have ho : mark? '\x7b' = some .openObject := rfl
    have hc : mark? '\x7d' = some .closeObject := rfl
    simp only [renderChars, tokens, List.cons_append, List.append_assoc, List.nil_append]
    rw [tokens?_mark ho, tokens?_renderFields fields, tokens?_mark hc]
    simp [Function.comp_def]

theorem tokens?_renderItems (items : List Json) (rest : List Char) :
    tokens? (renderItems items ++ rest) = (tokens? rest).map (itemTokens items ++ ·) := by
  match items with
  | [] => simp [renderItems, itemTokens]
  | [item] => simp [renderItems, itemTokens, tokens?_renderChars item]
  | item :: next :: more =>
    have hm : mark? ',' = some .comma := rfl
    have h := tokens?_renderItems (next :: more) rest
    rw [renderItems, itemTokens]
    simp only [List.cons_append, List.append_assoc]
    rw [tokens?_renderChars item, tokens?_mark hm, h]
    simp [Function.comp_def]

theorem tokens?_renderFields (fields : List (String × Json)) (rest : List Char) :
    tokens? (renderFields fields ++ rest) = (tokens? rest).map (fieldTokens fields ++ ·) := by
  have hk : mark? ':' = some .colon := rfl
  match fields with
  | [] => simp [renderFields, fieldTokens]
  | [(key, value)] =>
    rw [renderFields, fieldTokens]
    simp only [List.cons_append, List.append_assoc, List.append_nil]
    rw [tokens?_quote, tokens?_mark hk, tokens?_renderChars value]
    simp [Function.comp_def]
  | (key, value) :: next :: more =>
    have hm : mark? ',' = some .comma := rfl
    have h := tokens?_renderFields (next :: more) rest
    rw [renderFields, fieldTokens]
    simp only [List.cons_append, List.append_assoc]
    rw [tokens?_quote, tokens?_mark hk, tokens?_renderChars value, tokens?_mark hm, h]
    simp [Function.comp_def]

end

/-! ## Reading a value back -/

theorem head?_itemTokens_ne_closeArray (item : Json) (more : List Json) (rest : List Token) :
    (itemTokens (item :: more) ++ rest).head? ≠ some .closeArray := by
  cases more <;> cases item <;> simp [itemTokens, tokens]

theorem value?_openArray {n : Nat} {tokens : List Token} {items : List Json} {after : List Token}
    (hne : tokens.head? ≠ some .closeArray) (h : items? n tokens = some (items, after)) :
    value? (n + 1) (.openArray :: tokens) = some (.array items, after) := by
  rw [value?.eq_5]
  · simp [h]
  · rintro t rfl
    simp at hne

theorem value?_openObject {n : Nat} {tokens : List Token} {fields : List (String × Json)}
    {after : List Token} (hne : tokens.head? ≠ some .closeObject)
    (h : fields? n tokens = some (fields, after)) :
    value? (n + 1) (.openObject :: tokens) = some (.object fields, after) := by
  rw [value?.eq_7]
  · simp [h]
  · rintro t rfl
    simp at hne

mutual

/-- A value is read back from its tokens, whatever comes after them. -/
theorem value?_tokens (v : Json) (rest : List Token) (n : Nat) (hn : (tokens v).length ≤ n) :
    value? n (tokens v ++ rest) = some (v, rest) := by
  cases n with
  | zero => cases v <;> simp [tokens] at hn
  | succ n =>
    match v with
    | .bool b => rfl
    | .string s => rfl
    | .array [] => simp [tokens, itemTokens, value?]
    | .array (item :: more) =>
      simp only [tokens, List.length_cons, List.cons_append, List.append_assoc,
        List.nil_append] at hn ⊢
      exact value?_openArray (head?_itemTokens_ne_closeArray item more _)
        (items?_itemTokens item more rest n (by simp at hn; omega))
    | .object [] => simp [tokens, fieldTokens, value?]
    | .object ((key, value) :: more) =>
      simp only [tokens, List.length_cons, List.cons_append, List.append_assoc,
        List.nil_append] at hn ⊢
      refine value?_openObject ?_ (fields?_fieldTokens key value more rest n (by simp at hn; omega))
      simp [fieldTokens]
termination_by n

theorem items?_itemTokens (item : Json) (more : List Json) (rest : List Token) (n : Nat)
    (hn : (itemTokens (item :: more)).length + 1 ≤ n) :
    items? n (itemTokens (item :: more) ++ (.closeArray :: rest)) = some (item :: more, rest) := by
  cases n with
  | zero => omega
  | succ n =>
    match more with
    | [] =>
      simp only [itemTokens, List.append_nil] at hn ⊢
      rw [items?, value?_tokens item _ _ (by omega)]
    | next :: more =>
      rw [itemTokens] at hn ⊢
      simp only [List.length_append, List.length_cons] at hn
      rw [List.append_assoc, items?, value?_tokens item _ _ (by omega)]
      simp only [List.cons_append]
      rw [items?_itemTokens next more rest n (by omega)]
      rfl
termination_by n

theorem fields?_fieldTokens (key : String) (value : Json) (more : List (String × Json))
    (rest : List Token) (n : Nat) (hn : (fieldTokens ((key, value) :: more)).length + 1 ≤ n) :
    fields? n (fieldTokens ((key, value) :: more) ++ (.closeObject :: rest))
      = some ((key, value) :: more, rest) := by
  cases n with
  | zero => omega
  | succ n =>
    match more with
    | [] =>
      simp only [fieldTokens, List.append_nil, List.length_cons, List.cons_append] at hn ⊢
      rw [fields?, value?_tokens value _ _ (by omega)]
    | (key', value') :: more =>
      rw [fieldTokens] at hn ⊢
      simp only [List.length_append, List.length_cons, List.cons_append, List.append_assoc] at hn ⊢
      rw [fields?, value?_tokens value _ _ (by omega)]
      simp only
      rw [fields?_fieldTokens key' value' more rest n (by omega)]
      rfl
termination_by n

end

/-- What is written for a value is read back as that value. -/
theorem read?_render (v : Json) : read? v.render = some v := by
  have ht := tokens?_renderChars v []
  have hv := value?_tokens v [] _ (Nat.le_refl _)
  simp only [List.append_nil, tokens?, Option.map_some] at ht hv
  simp [read?, render, ht, hv]

end Lookahead.Json
