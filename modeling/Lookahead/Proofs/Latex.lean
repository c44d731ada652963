import Mathlib.Data.List.Basic
import Lookahead.Latex
import Lookahead.Proofs.Text.Joined

/-!
# LaTeX text tells names apart

A symbol is written character by character (`Latex.symbolChars`). Most characters stand for
themselves, and each of the others has a code of two characters at least (`Latex.specials`). No code
starts another one (`eq_of_isPrefix`), so the first character of a name is read off its text. Behind
a dash it is left open whether an empty group belongs to the dash or to the rest of the name. But no
name is written with an empty group in front (`not_emptyGroup_isPrefix`).

* `symbol_injective`, `escape_injective` : the text of a name says what the name is, with and
  without the macro for epsilon.
* `not_isBlank_of_mem_escape`, `not_isBlank_of_mem_symbolChars` : the text of a name without blanks
  has none.
* `symbolChars_ne`, `escape_ne` : what is not the text of any name.
-/

namespace Lookahead.Latex

open Text

/-! ## Codes of characters -/

/-- A property of all members of a text is decided member by member, not for every character. -/
instance (priority := 2000) decidableForallMem (p : Char → Prop) [DecidablePred p]
    (text : List Char) : Decidable (∀ c ∈ text, p c) :=
  List.decidableBAll p text

/-- The characters that do not stand for themselves in a symbol. -/
def specials : List Char :=
  ['&', '%', '$', '#', '_', '\x7b', '\x7d', '[', ']', '~', '^', '<', '>', '\\', '!', 'ε']

/-- How a character is written in a symbol, but for what the next character adds to a dash. -/
def symbolCode (c : Char) : List Char :=
  if c = 'ε' then epsilonMacro.toList else (escapeChar c).toList

theorem escapeChar_of_notMem {c : Char} (h : c ∉ specials) : escapeChar c = c.toString := by
  simp only [specials, List.mem_cons, List.not_mem_nil, or_false, not_or] at h
  simp [escapeChar, h]

theorem symbolCode_of_notMem {c : Char} (h : c ∉ specials) : symbolCode c = [c] := by
  have heps : c ≠ 'ε' := by
    rintro rfl
    exact h (by decide)
  rw [symbolCode, if_neg heps, escapeChar_of_notMem h, Char.toString, String.toList_singleton]

theorem symbolCode_ne_nil (c : Char) : symbolCode c ≠ [] := by
  by_cases hc : c ∈ specials
  · revert c
    decide
  · rw [symbolCode_of_notMem hc]
    exact List.cons_ne_nil c []

/-- No code starts another one. -/
theorem eq_of_isPrefix {c d : Char} (h : symbolCode c <+: symbolCode d) : c = d := by
  by_cases hc : c ∈ specials
  · -- the code of `c` is too long for a character that stands for itself
    by_cases hd : d ∈ specials
    · have hall : ∀ c ∈ specials, ∀ d ∈ specials, symbolCode c <+: symbolCode d → c = d := by
        decide +kernel
      exact hall c hc d hd h
    · have hlength : ∀ c ∈ specials, 2 ≤ (symbolCode c).length := by decide
      have hle := Nat.le_trans (hlength c hc) h.length_le
      rw [symbolCode_of_notMem hd] at hle
      exact absurd hle (by simp)
  · -- the codes of special characters start with a special character
    rw [symbolCode_of_notMem hc, List.singleton_prefix_iff_head?_eq_some] at h
    by_cases hd : d ∈ specials
    · have hheads : ∀ d ∈ specials, (symbolCode d).head?.all (· ∈ specials) = true := by decide
      have hhead := hheads d hd
      rw [h] at hhead
      exact absurd (of_decide_eq_true hhead) hc
    · rw [symbolCode_of_notMem hd] at h
      exact (Option.some.inj h).symm

/-- A text that starts with a special character, but with no code. -/
structure IsUncoded (text : List Char) : Prop where
  head_mem : ∃ c ∈ specials, text.head? = some c
  not_isPrefix : ∀ c ∈ specials, ¬symbolCode c <+: text

theorem IsUncoded.not_symbolCode_isPrefix {text : List Char} (h : IsUncoded text) (c : Char) :
    ¬symbolCode c <+: text := by
  by_cases hc : c ∈ specials
  · exact h.not_isPrefix c hc
  · obtain ⟨d, hd, hhead⟩ := h.head_mem
    rw [symbolCode_of_notMem hc, List.singleton_prefix_iff_head?_eq_some, hhead]
    intro heq
    exact hc (Option.some.inj heq ▸ hd)

/-! ## The text of a symbol -/

/-- The group between two dashes. -/
def emptyGroup : List Char :=
  (group "").toList

/-- What is written behind `c` if the characters of `rest` follow. -/
def separation (c : Char) (rest : List Char) : List Char :=
  if c = '-' ∧ rest.head? = some '-' then emptyGroup else []

/-- The characters of a symbol as LaTeX text. -/
def symbolChars : List Char → List Char
  | [] => []
  | c :: rest => symbolCode c ++ (separation c rest ++ symbolChars rest)

theorem flatMap_escapeChar (c : Char) :
    ((escapeChar c).toList.flatMap fun x => if x = 'ε' then epsilonMacro.toList else [x]) =
      symbolCode c := by
  by_cases hc : c ∈ specials
  · revert c
    decide +kernel
  · rw [escapeChar_of_notMem hc, symbolCode]
    simp [Char.toString, escapeChar_of_notMem hc]

theorem toList_symbol (name : String) : (symbol name).toList = symbolChars name.toList := by
  rw [symbol, replaceEpsilon, escape, String.toList_ofList, String.toList_ofList]
  induction name.toList with
  | nil => rfl
  | cons c rest ih =>
    rw [escapeChars, symbolChars, List.flatMap_append, ih, ← List.append_assoc]
    congr 1
    unfold separation
    split
    · next h =>
      rw [h.1]
      decide
    · rw [flatMap_escapeChar, List.append_nil]

theorem symbolChars_ne_nil {name : List Char} (h : name ≠ []) : symbolChars name ≠ [] := by
  obtain ⟨c, rest, rfl⟩ := List.exists_cons_of_ne_nil h
  rw [symbolChars]
  exact List.append_ne_nil_of_left_ne_nil (symbolCode_ne_nil c) _

theorem symbolChars_ne {text : List Char} (h : IsUncoded text) (name : List Char) :
    symbolChars name ≠ text := by
  rintro rfl
  cases name with
  | nil => exact h.head_mem.elim fun c hc => nomatch hc.2
  | cons c rest => exact h.not_symbolCode_isPrefix c ⟨_, rfl⟩

/-- No name is written with an empty group in front. -/
theorem not_emptyGroup_isPrefix (name : List Char) : ¬emptyGroup <+: symbolChars name := by
  intro h
  cases name with
  | nil => exact absurd (List.prefix_nil.mp h) (by decide)
  | cons c rest =>
    have huncoded : IsUncoded emptyGroup := ⟨⟨'\x7b', by decide, rfl⟩, by decide⟩
    -- the group would start the code of `c`, or the other way round
    refine (List.prefix_or_prefix_of_prefix h ⟨_, rfl⟩).elim (fun hcode => ?_)
      (huncoded.not_symbolCode_isPrefix c)
    by_cases hc : c ∈ specials
    · have hall : ∀ c ∈ specials, ¬emptyGroup <+: symbolCode c := by decide
      exact hall c hc hcode
    · rw [symbolCode_of_notMem hc] at hcode
      exact absurd hcode.length_le (Nat.lt_irrefl 1)

/-- Behind its first character the rest of a name is read off the text, also if that starts with the
group between two dashes. -/
theorem symbolChars_eq_of_separation {c : Char} {xs ys : List Char}
    (h : separation c xs ++ symbolChars xs = separation c ys ++ symbolChars ys) :
    symbolChars xs = symbolChars ys := by
  unfold separation at h
  split at h <;> split at h
  · exact List.append_cancel_left h
  · exact absurd ⟨_, h⟩ (not_emptyGroup_isPrefix ys)
  · exact absurd ⟨_, h.symm⟩ (not_emptyGroup_isPrefix xs)
  · exact h

theorem symbolChars_injective : Function.Injective symbolChars := by
  intro xs
  induction xs with
  | nil =>
    intro ys h
    cases ys with
    | nil => rfl
    | cons d ys => exact absurd h.symm (symbolChars_ne_nil (List.cons_ne_nil d ys))
  | cons c xs ih =>
    intro ys h
    cases ys with
    | nil => exact absurd h (symbolChars_ne_nil (List.cons_ne_nil c xs))
    | cons d ys =>
      rw [symbolChars, symbolChars] at h
      have hcode : symbolCode c <+: symbolCode d ++ (separation d ys ++ symbolChars ys) := ⟨_, h⟩
      obtain rfl : c = d :=
        (List.prefix_or_prefix_of_prefix hcode ⟨_, rfl⟩).elim eq_of_isPrefix
          fun hprefix => (eq_of_isPrefix hprefix).symm
      rw [ih (symbolChars_eq_of_separation (List.append_cancel_left h))]

theorem symbol_injective : Function.Injective symbol := fun _ _ h => by
  refine String.toList_injective (symbolChars_injective ?_)
  rw [← toList_symbol, ← toList_symbol, h]

theorem escape_injective : Function.Injective escape := fun _ _ h =>
  symbol_injective (congrArg replaceEpsilon h)

theorem toList_replaceEpsilon_of_notMem {s : String} (h : 'ε' ∉ s.toList) :
    (replaceEpsilon s).toList = s.toList := by
  rw [replaceEpsilon, String.toList_ofList]
  refine Eq.trans (List.flatMap_congr fun c hc => if_neg ?_) (List.flatMap_singleton' _)
  rintro rfl
  exact h hc

theorem escape_ne {text : List Char} (h : IsUncoded text) (heps : 'ε' ∉ text) (name : String) :
    (escape name).toList ≠ text := by
  rintro rfl
  exact symbolChars_ne h name.toList
    (by rw [← toList_symbol, symbol, toList_replaceEpsilon_of_notMem heps])

/-! ## Characters of the text -/

theorem not_isBlank_of_mem_symbolCode {c x : Char} (hc : isBlank c = false)
    (hx : x ∈ symbolCode c) : isBlank x = false := by
  by_cases hspecial : c ∈ specials
  · have hall : ∀ c ∈ specials, ∀ x ∈ symbolCode c, isBlank x = false := by decide
    exact hall c hspecial x hx
  · rw [symbolCode_of_notMem hspecial, List.mem_singleton] at hx
    rwa [hx]

theorem not_isBlank_of_mem_symbolChars {name : List Char} (h : ∀ c ∈ name, isBlank c = false) :
    ∀ x ∈ symbolChars name, isBlank x = false := by
  induction name with
  | nil => exact fun x hx => nomatch hx
  | cons c rest ih =>
    obtain ⟨hc, hrest⟩ := List.forall_mem_cons.mp h
    have hgroup : ∀ x ∈ separation c rest, isBlank x = false := by
      unfold separation
      split
      · decide
      · exact fun x hx => nomatch hx
    intro x hx
    rw [symbolChars, List.mem_append, List.mem_append] at hx
    rcases hx with hx | hx | hx
    · exact not_isBlank_of_mem_symbolCode hc hx
    · exact hgroup x hx
    · exact ih hrest x hx

/-- With the macro for epsilon a text keeps its other characters. -/
theorem mem_toList_replaceEpsilon {s : String} {x : Char} (hx : x ∈ s.toList) (heps : x ≠ 'ε') :
    x ∈ (replaceEpsilon s).toList := by
  rw [replaceEpsilon, String.toList_ofList, List.mem_flatMap]
  exact ⟨x, hx, by simp [heps]⟩

theorem not_isBlank_of_mem_escape {name : String} (h : ∀ c ∈ name.toList, isBlank c = false) :
    ∀ x ∈ (escape name).toList, isBlank x = false := by
  intro x hx
  by_cases heps : x = 'ε'
  · rw [heps]
    decide
  · refine not_isBlank_of_mem_symbolChars h x ?_
    rw [← toList_symbol]
    exact mem_toList_replaceEpsilon hx heps

/-! ## Lists of symbols -/

/-- The symbols of a list as LaTeX text, one by one. -/
def symbolTexts (names : List String) : List (List Char) :=
  names.map fun name => symbolChars name.toList

theorem toList_symbols (names : List String) (separator : String) :
    (symbols names separator).toList = separator.toList.intercalate (symbolTexts names) := by
  rw [symbols, String.toList_intercalate, List.map_map, symbolTexts]
  simp only [Function.comp_def, toList_symbol]

theorem symbolTexts_injective : Function.Injective symbolTexts :=
  List.map_injective_iff.mpr fun _ _ h => String.toList_injective (symbolChars_injective h)

end Lookahead.Latex
