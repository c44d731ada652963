import Lookahead.Proofs.Derivation
import Lookahead.Proofs.Sets.Passes
import Lookahead.Sets.First

/-!
# FIRST says what can come first

A string begins with a symbol (`Grammar.Begins`) if it derives a string that starts with
that symbol and the symbol is no non-terminal, and it begins with `ε` if it derives the
empty string. FIRST of a string holds exactly the symbols it begins with, for every
grammar that is made from rules (`mem_firstOf_iff_begins`) : left recursion and
non-terminals that derive nothing do not matter.

That FIRST holds no more is kept by every addition of a pass (`SoundFirst`). That it holds
no less follows from the last pass, which added nothing : FIRST of a string holds FIRST of
every string it expands to (`firstOf_subset_of_expands`).

* `mem_firstOf_append` : FIRST of two strings in a row.
* `mem_firstOf_first_iff` : FIRST of strings, and of single symbols, by derivations.
-/

namespace Lookahead

open Grammar (epsilon unmarked)

/-! ## FIRST of a string in a table -/

namespace SetTable

variable {t : SetTable} {i k : Nat} {s x y : List Nat}

theorem mem_firstOf_cons : k ∈ t.firstOf (i :: s) ↔
    (k ∈ t.get i ∧ k ≠ epsilon) ∨ (t.IsNullable i ∧ k ∈ t.firstOf s) := by
  by_cases h : t.IsNullable i
  · rw [firstOf_cons_of_isNullable h, IndexSet.mem_union, IndexSet.mem_erase]
    simp only [h, true_and]
  · rw [firstOf_cons_of_not_isNullable h]
    constructor
    · intro hk
      refine Or.inl ⟨hk, ?_⟩
      rintro rfl
      exact h hk
    · rintro (⟨hk, -⟩ | ⟨hi, -⟩)
      · exact hk
      · exact absurd hi h

theorem mem_firstOf_singleton : k ∈ t.firstOf [i] ↔ k ∈ t.get i := by
  rw [mem_firstOf_cons, firstOf_nil, IndexSet.mem_single]
  constructor
  · rintro (⟨hk, -⟩ | ⟨hi, rfl⟩)
    · exact hk
    · exact hi
  · intro hk
    by_cases h : k = epsilon
    · subst h
      exact Or.inr ⟨hk, rfl⟩
    · exact Or.inl ⟨hk, h⟩

theorem mem_firstOf_append : k ∈ t.firstOf (x ++ y) ↔
    (k ∈ t.firstOf x ∧ k ≠ epsilon) ∨ (epsilon ∈ t.firstOf x ∧ k ∈ t.firstOf y) := by
  induction x with
  | nil => simp
  | cons i x ih =>
    rw [List.cons_append, mem_firstOf_cons, ih, mem_firstOf_cons, mem_firstOf_cons]
    tauto

/-- FIRST of a string grows with FIRST of a part of it. -/
theorem firstOf_append_subset {x' : List Nat} (h : t.firstOf x' ⊆ t.firstOf x)
    (front back : List Nat) : t.firstOf (front ++ x' ++ back) ⊆ t.firstOf (front ++ x ++ back) := by
  intro k hk
  simp only [mem_firstOf_append] at hk ⊢
  rcases hk with ⟨⟨hk, hne⟩ | ⟨hf, hk⟩, hne'⟩ | ⟨⟨hf, hne⟩ | ⟨hf, hx⟩, hk⟩
  · exact Or.inl ⟨Or.inl ⟨hk, hne⟩, hne'⟩
  · exact Or.inl ⟨Or.inr ⟨hf, h k hk⟩, hne'⟩
  · exact absurd rfl hne
  · exact Or.inr ⟨Or.inr ⟨hf, h _ hx⟩, hk⟩

theorem firstOf_unmarked (h : t.get epsilon = .single epsilon) (s : List Nat) :
    t.firstOf (unmarked s) = t.firstOf s := by
  induction s with
  | nil => rfl
  | cons i s ih =>
    refine IndexSet.ext fun k => ?_
    by_cases hi : i = epsilon
    · subst hi
      rw [Grammar.unmarked_epsilon_cons, ih, mem_firstOf_cons, IsNullable, h]
      simp
    · rw [Grammar.unmarked_cons_of_ne hi, mem_firstOf_cons, mem_firstOf_cons, ih]

theorem mem_get_of_mem_firstOf (h : k ∈ t.firstOf s) : k = epsilon ∨ ∃ i, k ∈ t.get i := by
  induction s with
  | nil => exact Or.inl (IndexSet.mem_single.mp h)
  | cons i s ih =>
    rcases mem_firstOf_cons.mp h with ⟨hk, -⟩ | ⟨-, hk⟩
    · exact Or.inr ⟨i, hk⟩
    · exact ih hk

end SetTable

namespace Grammar

variable {g : Grammar} {s u : List Nat} {i k : Nat}

theorem epsilon_lt_symbolCount (g : Grammar) : epsilon < g.symbolCount := by
  rw [symbolCount_eq, epsilon]
  omega

theorem lt_of_mem_firstOf {t : SetTable} (h : t.Within g.symbolCount) (hk : k ∈ t.firstOf s) :
    k < g.symbolCount := by
  rcases SetTable.mem_get_of_mem_firstOf hk with rfl | ⟨i, hi⟩
  · exact g.epsilon_lt_symbolCount
  · exact h.lt i k hi

/-! ## What a string begins with -/

/-- The string derives a string with the symbol `k` in front, which stays there; or `k` is
`ε`, and the string derives the empty string. -/
def Begins (g : Grammar) (s : List Nat) (k : Nat) : Prop :=
  (k = epsilon ∧ g.Derives s []) ∨
    (k ≠ epsilon ∧ ¬g.IsNonTerminal k ∧ ∃ rest, g.Derives s (k :: rest))

theorem begins_epsilon : g.Begins s epsilon ↔ g.Derives s [] := by
  simp [Begins]

theorem begins_of_ne (h : k ≠ epsilon) :
    g.Begins s k ↔ ¬g.IsNonTerminal k ∧ ∃ rest, g.Derives s (k :: rest) := by
  simp [Begins, h]

theorem Begins.of_derives (h : g.Begins u k) (hsu : g.Derives s u) : g.Begins s k := by
  rcases h with ⟨rfl, h⟩ | ⟨hne, hk, rest, h⟩
  · exact Or.inl ⟨rfl, hsu.trans h⟩
  · exact Or.inr ⟨hne, hk, rest, hsu.trans h⟩

theorem Begins.append_left (h : g.Begins s k) (hne : k ≠ epsilon) (y : List Nat) :
    g.Begins (s ++ y) k := by
  obtain ⟨hk, rest, h⟩ := (begins_of_ne hne).mp h
  exact (begins_of_ne hne).mpr ⟨hk, rest ++ y, by simpa using h.in_context [] y⟩

theorem Begins.append_right (h : g.Begins u k) (hs : g.Derives s []) : g.Begins (s ++ u) k :=
  h.of_derives (by simpa using hs.in_context [] u)

/-! ## FIRST holds no more -/

/-- A set of the table holds only what its symbol begins with. -/
def SoundFirst (g : Grammar) (t : SetTable) : Prop :=
  ∀ i, ∀ k ∈ t.get i, g.Begins (unmarked [i]) k

theorem SoundFirst.firstOf {t : SetTable} (h : g.SoundFirst t) (hk : k ∈ t.firstOf s) :
    g.Begins (unmarked s) k := by
  induction s with
  | nil =>
    obtain rfl := IndexSet.mem_single.mp hk
    exact begins_epsilon.mpr (.refl [])
  | cons i s ih =>
    rw [← List.singleton_append, unmarked_append]
    rcases SetTable.mem_firstOf_cons.mp hk with ⟨hk, hne⟩ | ⟨hi, hk⟩
    · exact (h i k hk).append_left hne _
    · exact (ih hk).append_right (begins_epsilon.mp (h i _ hi))

theorem first_eq_settle_fill (g : Grammar) : g.first =
    (settle (SetTable.fill Production.left (fun t p => t.firstOf p.right) g.productions)
      SetTable.gap g.firstStart).value :=
  rfl

theorem mem_get_firstStart : k ∈ g.firstStart.get i ↔
    i < g.symbolCount ∧ ¬g.IsNonTerminal i ∧ k = i := by
  rw [firstStart, SetTable.mem_get_tabulate]
  refine and_congr_right fun _ => ?_
  by_cases hn : g.IsNonTerminal i <;> simp [hn]

theorem soundFirst_firstStart : g.SoundFirst g.firstStart := by
  intro i k hk
  obtain ⟨-, hn, rfl⟩ := mem_get_firstStart.mp hk
  by_cases hk : k = epsilon
  · subst hk
    exact begins_epsilon.mpr (.refl [])
  · rw [begins_of_ne hk, unmarked_cons_of_ne hk]
    exact ⟨hn, [], .refl [k]⟩

theorem SoundFirst.add {t : SetTable} (h : g.SoundFirst t) {p : Production}
    (hp : p ∈ g.productions) : g.SoundFirst (t.add p.left (t.firstOf p.right)) := by
  intro i k hk
  rcases SetTable.mem_or_of_mem_get_add hk with hold | ⟨rfl, hnew⟩
  · exact h i k hold
  · rw [unmarked_cons_of_ne (g.isNonTerminal_of_mem_productions hp).ne_epsilon]
    exact (h.firstOf hnew).of_derives (derives_nonTerminal hp)

theorem soundFirst_first (g : Grammar) : g.SoundFirst g.first := by
  rw [first_eq_settle_fill]
  exact SetTable.settle_fill_induct (fun _ h _ hp => h.add hp) soundFirst_firstStart

/-! ## FIRST holds no less -/

theorem within_firstStart (g : Grammar) : g.firstStart.Within g.symbolCount := by
  refine ⟨SetTable.size_tabulate _ _, fun i k hk => ?_⟩
  obtain ⟨hi, -, rfl⟩ := mem_get_firstStart.mp hk
  exact hi

theorem within_first (g : Grammar) : g.first.Within g.symbolCount := by
  rw [first_eq_settle_fill]
  exact SetTable.within_settle_fill (fun t ht p _ k hk => lt_of_mem_firstOf ht hk)
    g.within_firstStart

/-- Passes do not touch the row of a marker or a terminal. -/
theorem get_first_of_not_isNonTerminal (hi : i < g.symbolCount) (hn : ¬g.IsNonTerminal i) :
    g.first.get i = .single i := by
  rw [first_eq_settle_fill]
  refine SetTable.settle_fill_induct (P := fun t => t.get i = .single i) (fun t ht p hp => ?_) ?_
  · have hne : p.left ≠ i := fun h => hn (h ▸ g.isNonTerminal_of_mem_productions hp)
    rw [SetTable.get_add_of_ne hne, ht]
  · exact IndexSet.ext fun k => by simp [mem_get_firstStart, hi, hn]

theorem get_first_epsilon (g : Grammar) : g.first.get epsilon = .single epsilon :=
  get_first_of_not_isNonTerminal g.epsilon_lt_symbolCount fun h => h.ne_epsilon rfl

/-- The last pass added nothing. -/
theorem firstOf_right_subset {p : Production} (hp : p ∈ g.productions) :
    g.first.firstOf p.right ⊆ g.first.get p.left := by
  rw [first_eq_settle_fill]
  exact SetTable.gain_subset_settle_fill (fun t ht p _ k hk => lt_of_mem_firstOf ht hk)
    g.within_firstStart hp (g.isNonTerminal_of_mem_productions hp).lt_symbolCount

theorem firstOf_subset_of_expands (h : g.Expands s u) : g.first.firstOf u ⊆ g.first.firstOf s := by
  cases h with
  | @intro front back p hp =>
    rw [← List.singleton_append, ← List.append_assoc]
    refine SetTable.firstOf_append_subset (fun k hk => ?_) front back
    rw [SetTable.firstOf_unmarked g.get_first_epsilon] at hk
    exact SetTable.mem_firstOf_singleton.mpr (firstOf_right_subset hp k hk)

theorem firstOf_subset_of_derives (h : g.Derives s u) : g.first.firstOf u ⊆ g.first.firstOf s := by
  induction h with
  | refl => exact fun _ hk => hk
  | head first _ ih => exact fun k hk => firstOf_subset_of_expands first k (ih k hk)

/-! ## FIRST by derivations -/

theorem mem_firstOf_iff_begins (hg : g.WellFormed) (hs : g.InUse s) :
    k ∈ g.first.firstOf s ↔ g.Begins (unmarked s) k := by
  refine ⟨g.soundFirst_first.firstOf, fun h => ?_⟩
  rw [← SetTable.firstOf_unmarked g.get_first_epsilon]
  rcases h with ⟨rfl, h⟩ | ⟨hne, hk, rest, h⟩
  · exact firstOf_subset_of_derives h _ (IndexSet.mem_single.mpr rfl)
  · have hlt : k < g.symbolCount := hs.unmarked.of_derives hg h k List.mem_cons_self
    refine firstOf_subset_of_derives h _ (SetTable.mem_firstOf_cons.mpr (Or.inl ⟨?_, hne⟩))
    rw [get_first_of_not_isNonTerminal hlt hk]
    exact IndexSet.mem_single.mpr rfl

theorem mem_get_first_iff_begins (hg : g.WellFormed) (hi : g.IsNonTerminal i) :
    k ∈ g.first.get i ↔ g.Begins [i] k := by
  rw [← SetTable.mem_firstOf_singleton,
    mem_firstOf_iff_begins hg (by simpa [InUse] using hi.lt_symbolCount),
    unmarked_cons_of_ne hi.ne_epsilon, unmarked_nil]

/-- What comes first in a derived string, if it is no non-terminal, is a terminal. -/
theorem isTerminal_of_derives_cons (hg : g.WellFormed) (hs : g.InUse s)
    (hmark : ∀ i ∈ s, i ≠ endMark) (h : g.Derives s (k :: u)) (hk : ¬g.IsNonTerminal k)
    (hne : k ≠ epsilon) : g.IsTerminal k := by
  have hkm : k ≠ endMark := h.forall_mem hg.ne_endMark_of_mem_right hmark k List.mem_cons_self
  exact (((cases_of_lt_symbolCount (hs.of_derives hg h k List.mem_cons_self)).resolve_left
    hne).resolve_left hkm).resolve_left hk

theorem mem_get_first_cases (hg : g.WellFormed) (hi : g.IsNonTerminal i)
    (hk : k ∈ g.first.get i) : k = epsilon ∨ g.IsTerminal k := by
  rcases (mem_get_first_iff_begins hg hi).mp hk with ⟨rfl, -⟩ | ⟨hne, hn, rest, hd⟩
  · exact Or.inl rfl
  · refine Or.inr (isTerminal_of_derives_cons hg ?_ ?_ hd hn hne)
    · simpa [InUse] using hi.lt_symbolCount
    · simpa using hi.ne_endMark

theorem isNullable_first_iff (hg : g.WellFormed) (hi : i < g.symbolCount) :
    g.first.IsNullable i ↔ g.Derives (unmarked [i]) [] := by
  rw [← begins_epsilon, ← mem_firstOf_iff_begins hg (by simpa [InUse] using hi)]
  exact SetTable.mem_firstOf_singleton.symm

theorem firstOf?_first (hs : g.InUse s) : g.first.firstOf? s = some (g.first.firstOf s) :=
  SetTable.firstOf?_eq_some fun i hi => by
    rw [g.within_first.size_eq]
    exact hs i hi

/-- FIRST of every string over the numbers in use is defined. It holds a symbol other than
`ε` exactly if the string derives a string with that symbol in front and the symbol is no
non-terminal, and `ε` exactly if the string derives the empty string. The set of a symbol
is FIRST of the string of that symbol alone. -/
theorem mem_firstOf_first_iff {rules : List Rule} (h : ofRules rules = .ok g) :
    (∀ s, g.InUse s → ∃ set, g.first.firstOf? s = some set ∧
      (∀ t, t ≠ epsilon → (t ∈ set ↔
        ¬g.IsNonTerminal t ∧ ∃ rest, g.Derives (unmarked s) (t :: rest))) ∧
      (epsilon ∈ set ↔ g.Derives (unmarked s) [])) ∧
    ∀ i, i < g.symbolCount → (∃ set, g.first.get? i = some set ∧ g.first.firstOf? [i] = some set) ∧
      (g.first.IsNullable i ↔ g.Derives (unmarked [i]) []) := by
  have hg := wellFormed_of_ofRules h
  refine ⟨fun s hs => ⟨_, firstOf?_first hs, fun t ht => ?_, ?_⟩, fun i hi => ⟨?_, ?_⟩⟩
  · rw [mem_firstOf_iff_begins hg hs, begins_of_ne ht]
  · rw [mem_firstOf_iff_begins hg hs, begins_epsilon]
  · have hin : g.InUse [i] := by simpa [InUse] using hi
    have heq : g.first.firstOf [i] = g.first.get i :=
      IndexSet.ext fun _ => SetTable.mem_firstOf_singleton
    exact ⟨_, g.within_first.get?_eq hi, by rw [firstOf?_first hin, heq]⟩
  · exact isNullable_first_iff hg hi

/-- Rules with left recursion behind a symbol that can vanish, a loop, and a non-terminal
without alternatives. -/
def hiddenRules : List Rule :=
  [⟨"S", [["A", "S", "b"], ["c"], ["B"]]⟩, ⟨"A", [["A"], ["ε"]]⟩, ⟨"B", []⟩]

/-- The grammar of `hiddenRules`. -/
def hiddenGrammar : Grammar :=
  ⟨[⟨"S", [[3, 2, 5], [6], [4]]⟩, ⟨"A", [[3], [0]]⟩, ⟨"B", []⟩], ["b", "c"]⟩

/-- Behind the symbol that vanishes, `c` comes first; nothing comes first where `B` is. -/
theorem mem_firstOf_first_hidden : ofRules hiddenRules = .ok hiddenGrammar ∧
    (∃ rest, hiddenGrammar.Derives [3, 2] (6 :: rest)) ∧ hiddenGrammar.Derives [3] [] ∧
    ¬∃ rest, hiddenGrammar.Derives [3, 4, 2] (6 :: rest) := by
  have hok : ofRules hiddenRules = .ok hiddenGrammar := rfl
  obtain ⟨hfirst, hsymbol⟩ := mem_firstOf_first_iff hok
  refine ⟨hok, ?_, ?_, ?_⟩
  · obtain ⟨set, hset, hmem, -⟩ := hfirst [3, 2] (by decide)
    obtain rfl := Option.some.inj ((firstOf?_first (by decide)).symm.trans hset)
    exact ((hmem 6 (by decide)).mp (by decide +kernel)).2
  · exact (hsymbol 3 (by decide)).2.mp (by decide +kernel)
  · obtain ⟨set, hset, hmem, -⟩ := hfirst [3, 4, 2] (by decide)
    obtain rfl := Option.some.inj ((firstOf?_first (by decide)).symm.trans hset)
    intro hrest
    exact absurd ((hmem 6 (by decide)).mpr ⟨by decide, hrest⟩) (by decide +kernel)

end Grammar

end Lookahead
