import Mathlib.Data.List.Pairwise
import Mathlib.Data.List.SplitBy
import Lookahead.Proofs.Text.Joined

/-!
# Lines that go on, and runs of spaces

The plain production report takes a line per alternative, and a line that starts with a bar
goes on with the rule of the line before it. `appendContinuations` puts such lines together
again, and `squeeze` takes out the spaces that only pad.

* `appendContinuations_flatten` : rules of several lines each are put together one by one.
* `squeeze_append_congr`, `squeeze_intercalate_congr` : texts are alike up to runs of spaces
  if their parts are.
-/

namespace Lookahead.Text

/-! ## Continuation lines -/

/-- A line whose first character that is no space is a bar. -/
def isContinuation (line : List Char) : Bool :=
  (line.dropWhile (· == ' ')).head? == some '|'

/-- The lines, with each continuation line appended to the line before it. -/
def appendContinuations (lines : List (List Char)) : List (List Char) :=
  (lines.splitBy fun _ line => isContinuation line).map List.flatten

/-- Lines of which the first starts a rule and the others go on with it. -/
def IsContinued (group : List (List Char)) : Prop :=
  ∃ first rest, group = first :: rest ∧ isContinuation first = false ∧
    ∀ line ∈ rest, isContinuation line = true

theorem isContinuation_spaces_append (n : Nat) (line : List Char) :
    isContinuation (List.replicate n ' ' ++ line) = isContinuation line := by
  rw [isContinuation, List.dropWhile_append_of_pos (by simp), isContinuation]

/-- Every rule comes out on a line of its own. -/
theorem appendContinuations_flatten {groups : List (List (List Char))}
    (h : ∀ group ∈ groups, IsContinued group) :
    appendContinuations groups.flatten = groups.map List.flatten := by
  have hnil : [] ∉ groups := fun hmem => by
    obtain ⟨first, rest, heq, -⟩ := h [] hmem
    exact absurd heq (by simp)
  have hinner : ∀ group ∈ groups, group.IsChain fun _ line => isContinuation line := by
    intro group hgroup
    obtain ⟨first, rest, rfl, -, hrest⟩ := h group hgroup
    exact List.Pairwise.isChain <| List.pairwise_cons.mpr
      ⟨hrest, List.pairwise_of_forall_mem_list fun _ _ line hline => hrest line hline⟩
  have houter : groups.IsChain fun front back =>
      ∃ (_ : front ≠ []) (hback : back ≠ []), isContinuation (back.head hback) = false := by
    refine (List.pairwise_of_forall_mem_list fun front hfront back hback => ?_).isChain
    obtain ⟨first, rest, rfl, hfirst, -⟩ := h back hback
    exact ⟨fun heq => hnil (heq ▸ hfront), List.cons_ne_nil _ _, hfirst⟩
  rw [appendContinuations, List.splitBy_flatten hnil hinner houter]

/-! ## Runs of spaces -/

/-- The text with a single space for each run of spaces. -/
def squeeze (cs : List Char) : List Char :=
  cs.foldr (fun c rest => if c = ' ' ∧ rest.head? = some ' ' then rest else c :: rest) []

theorem squeeze_cons (c : Char) (cs : List Char) : squeeze (c :: cs) =
    if c = ' ' ∧ (squeeze cs).head? = some ' ' then squeeze cs else c :: squeeze cs := rfl

@[simp] theorem head?_squeeze (cs : List Char) : (squeeze cs).head? = cs.head? := by
  cases cs with
  | nil => rfl
  | cons c cs =>
    rw [squeeze_cons]
    split
    · next h => simp [h.1, h.2]
    · rfl

theorem squeeze_squeeze_append (xs ys : List Char) :
    squeeze (squeeze xs ++ ys) = squeeze (xs ++ ys) := by
  induction xs with
  | nil => rfl
  | cons c xs ih =>
    rw [squeeze_cons, List.cons_append, squeeze_cons, head?_squeeze, head?_squeeze]
    split
    · next h =>
      rw [ih, if_pos ⟨h.1, by rw [List.head?_append, h.2]; rfl⟩]
    · rw [List.cons_append, squeeze_cons, ih, head?_squeeze]

theorem squeeze_append_squeeze (xs ys : List Char) :
    squeeze (xs ++ squeeze ys) = squeeze (xs ++ ys) := by
  induction xs with
  | nil => simpa using squeeze_squeeze_append ys []
  | cons c xs ih => rw [List.cons_append, List.cons_append, squeeze_cons, squeeze_cons, ih]

theorem squeeze_append_congr {xs xs' ys ys' : List Char} (hx : squeeze xs = squeeze xs')
    (hy : squeeze ys = squeeze ys') : squeeze (xs ++ ys) = squeeze (xs' ++ ys') := by
  rw [← squeeze_squeeze_append, hx, squeeze_squeeze_append, ← squeeze_append_squeeze, hy,
    squeeze_append_squeeze]

/-- A run of spaces counts as one. -/
theorem squeeze_replicate (n : Nat) : squeeze (List.replicate (n + 1) ' ') = [' '] := by
  induction n with
  | zero => rfl
  | succ n ih => rw [List.replicate_succ, squeeze_cons, ih, if_pos ⟨rfl, rfl⟩]

theorem squeeze_intercalate_congr {α : Type} {sep sep' : List Char} {f f' : α → List Char}
    {items : List α} (hsep : squeeze sep = squeeze sep')
    (h : ∀ item ∈ items, squeeze (f item) = squeeze (f' item)) :
    squeeze (sep.intercalate (items.map f)) = squeeze (sep'.intercalate (items.map f')) := by
  induction items with
  | nil => rfl
  | cons item items ih =>
    obtain ⟨hitem, hitems⟩ := List.forall_mem_cons.mp h
    cases items with
    | nil => simpa using hitem
    | cons next items =>
      simp only [List.map_cons, List.intercalate_cons_cons] at ih ⊢
      exact squeeze_append_congr (squeeze_append_congr hitem hsep) (ih hitems)

end Lookahead.Text
