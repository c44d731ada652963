import Lookahead.Grammar.Basic

/-!
# Derivations

What the productions of a grammar mean: a non-terminal may be replaced, wherever it stands, by the
right side of one of its productions. Markers for the empty string are left out, as they stand for
nothing.

* `Derives.trans`, `Derives.append` : derivations follow each other, and go on side by side.
* `derives_nonTerminal` : a non-terminal derives what one of its right sides derives.
-/

namespace Lookahead

namespace Grammar

/-- A string of symbols without the markers for the empty string. -/
def unmarked (string : List Nat) : List Nat :=
  string.filter (· ≠ epsilon)

/-- One string becomes another by one production. -/
inductive Expands (g : Grammar) : List Nat → List Nat → Prop
  | intro (front back : List Nat) {p : Production} (h : p ∈ g.productions) :
    Expands g (front ++ p.left :: back) (front ++ unmarked p.right ++ back)

/-- One string becomes another by any number of productions. -/
inductive Derives (g : Grammar) : List Nat → List Nat → Prop
  | refl (string : List Nat) : Derives g string string
  | head {s t u : List Nat} (first : g.Expands s t) (rest : Derives g t u) : Derives g s u

/-- One string becomes another by at least one production. -/
def DerivesProperly (g : Grammar) (s u : List Nat) : Prop :=
  ∃ t, g.Expands s t ∧ g.Derives t u

/-- `i` is left recursive: it derives a string that starts with it. -/
def IsLeftRecursive (g : Grammar) (i : Nat) : Prop :=
  ∃ rest, g.DerivesProperly [i] (i :: rest)

@[simp] theorem unmarked_nil : unmarked [] = [] := rfl

theorem unmarked_append (s t : List Nat) : unmarked (s ++ t) = unmarked s ++ unmarked t := by
  simp [unmarked]

variable {g : Grammar} {s t u : List Nat}

theorem Expands.derives (h : g.Expands s t) : g.Derives s t :=
  .head h (.refl t)

theorem Derives.trans (hst : g.Derives s t) (htu : g.Derives t u) : g.Derives s u := by
  induction hst with
  | refl => exact htu
  | head first _ ih => exact .head first (ih htu)

theorem Expands.in_context (h : g.Expands s t) (front back : List Nat) :
    g.Expands (front ++ s ++ back) (front ++ t ++ back) := by
  obtain ⟨x, y, hp⟩ := h
  have := Expands.intro (front ++ x) (y ++ back) hp
  simpa [List.append_assoc] using this

theorem Derives.in_context (h : g.Derives s t) (front back : List Nat) :
    g.Derives (front ++ s ++ back) (front ++ t ++ back) := by
  induction h with
  | refl => exact .refl _
  | head first _ ih => exact .head (first.in_context front back) ih

theorem Derives.append {s' t' : List Nat} (h : g.Derives s t) (h' : g.Derives s' t') :
    g.Derives (s ++ s') (t ++ t') := by
  have h1 := h.in_context [] s'
  have h2 := h'.in_context t []
  simp only [List.nil_append, List.append_nil] at h1 h2
  exact h1.trans h2

theorem derives_nonTerminal {p : Production} (h : p ∈ g.productions) :
    g.Derives [p.left] (unmarked p.right) := by
  have := (Expands.intro [] [] h).derives
  simpa using this

end Grammar

end Lookahead
