import Lookahead.Proofs.Sets.First
import Lookahead.Sets.Follow

/-!
# FOLLOW says what can come next

A terminal follows a non-terminal (`Grammar.Follows`) if it stands right behind it in a
string that some non-terminal derives, and the end mark follows it if it stands at the end
of a string that the start symbol derives. FOLLOW holds exactly the symbols that follow,
for every grammar that is made from rules (`mem_follow_iff_follows`).

That FOLLOW holds no more is kept by every addition of a pass (`SoundFollow`). That it
holds no less takes an invariant of all strings that a non-terminal derives
(`Grammar.Covers`) : what the rest of the string contributes to a non-terminal in it, as it
would on a right side, that non-terminal has in its set. The last pass, which added nothing,
gives this for the right sides, and an expansion keeps it for every non-terminal of the
string (`Covers.of_expands`), also for those in front, as FIRST of what comes behind them
does not grow.

* `mem_follow_follow_iff` : FOLLOW by derivations, and from the start symbol alone if every
  non-terminal occurs in what the start symbol derives.
-/

namespace Lookahead

/-- A member of two lists in a row is in the one or in the other. -/
theorem append_cons_eq_append {α : Type} {x y u v : List α} {i : α}
    (h : x ++ i :: y = u ++ v) :
    (∃ z, u = x ++ i :: z ∧ y = z ++ v) ∨ ∃ z, x = u ++ z ∧ v = z ++ i :: y := by
  rcases List.append_eq_append_iff.mp h with ⟨z, rfl, hz⟩ | ⟨z, rfl, rfl⟩
  · cases z with
    | nil => exact Or.inr ⟨[], by simp, by simpa using hz.symm⟩
    | cons j z =>
      obtain ⟨rfl, rfl⟩ := List.cons.inj hz
      exact Or.inl ⟨z, rfl, rfl⟩
  · exact Or.inr ⟨z, rfl, rfl⟩

namespace Grammar

variable {g : Grammar} {first t : SetTable} {o : Occurrence} {a i k : Nat} {s u : List Nat}

theorem mem_followAt : k ∈ followAt first t o ↔ (k ∈ first.firstOf o.rest ∧ k ≠ epsilon) ∨
    (epsilon ∈ first.firstOf o.rest ∧ k ∈ t.get o.left) := by
  unfold followAt
  by_cases h : epsilon ∈ first.firstOf o.rest
  · simp only [h, if_true, IndexSet.mem_union, IndexSet.mem_erase, true_and]
  · simp only [h, if_false, false_and, or_false]
    refine ⟨fun hk => ⟨hk, ?_⟩, And.left⟩
    rintro rfl
    exact h hk

theorem follow_eq_settle_fill (g : Grammar) (first : SetTable) : g.follow first =
    (settle (SetTable.fill Occurrence.symbol (followAt first) g.occurrences)
      SetTable.gap g.followStart).value :=
  rfl

theorem mem_get_followStart : k ∈ g.followStart.get i ↔
    i < g.symbolCount ∧ i = start ∧ k = endMark := by
  rw [followStart, SetTable.mem_get_tabulate]
  refine and_congr_right fun _ => ?_
  by_cases hi : i = start <;> simp [hi]

/-! ## FOLLOW holds no more -/

/-- `k` can stand right behind the non-terminal `i`. -/
def Follows (g : Grammar) (i k : Nat) : Prop :=
  (k = endMark ∧ ∃ x, g.Derives [start] (x ++ [i])) ∨
    (k ≠ endMark ∧ g.IsTerminal k ∧
      ∃ a x y, g.IsNonTerminal a ∧ g.Derives [a] (x ++ i :: k :: y))

theorem follows_endMark : g.Follows i endMark ↔ ∃ x, g.Derives [start] (x ++ [i]) := by
  simp [Follows]

theorem follows_of_ne (h : k ≠ endMark) : g.Follows i k ↔ g.IsTerminal k ∧
    ∃ a x y, g.IsNonTerminal a ∧ g.Derives [a] (x ++ i :: k :: y) := by
  simp [Follows, h]

/-- A set of the table belongs to a non-terminal and holds only what follows it. -/
def SoundFollow (g : Grammar) (t : SetTable) : Prop :=
  ∀ i, ∀ k ∈ t.get i, g.IsNonTerminal i ∧ g.Follows i k

/-- An occurrence is derived from its left side with its rest behind it. -/
theorem derives_of_mem_occurrences (ho : o ∈ g.occurrences) : g.IsNonTerminal o.left ∧
    ∃ front, g.Derives [o.left] (front ++ o.symbol :: unmarked o.rest) := by
  obtain ⟨hn, front, hp⟩ := g.mem_occurrences.mp ho
  refine ⟨g.isNonTerminal_of_mem_productions hp, unmarked front, ?_⟩
  have := derives_nonTerminal hp
  rwa [unmarked_append, unmarked_cons_of_ne hn.ne_epsilon] at this

theorem forall_mem_rest_of_mem_occurrences {P : Nat → Prop}
    (hP : ∀ p ∈ g.productions, ∀ i ∈ p.right, P i) (ho : o ∈ g.occurrences) :
    ∀ i ∈ o.rest, P i := by
  obtain ⟨-, front, hp⟩ := g.mem_occurrences.mp ho
  exact fun i hi => hP _ hp i (by simp [hi])

/-- What the rest of an occurrence derives has terminals and non-terminals only. -/
theorem isTerminal_of_derives_rest (hg : g.WellFormed) (ho : o ∈ g.occurrences)
    (h : g.Derives (unmarked o.rest) (k :: u)) (hk : ¬g.IsNonTerminal k) (hne : k ≠ epsilon) :
    g.IsTerminal k := by
  have hlt : g.InUse (unmarked o.rest) :=
    InUse.unmarked (forall_mem_rest_of_mem_occurrences hg.lt_of_mem_right ho)
  have hmark : ∀ i ∈ unmarked o.rest, i ≠ endMark := fun i hi =>
    forall_mem_rest_of_mem_occurrences hg.ne_endMark_of_mem_right ho i (mem_unmarked.mp hi).1
  exact isTerminal_of_derives_cons hg hlt hmark h hk hne

/-- What follows the left side follows an occurrence whose rest can vanish. -/
theorem Follows.of_mem_occurrences (ho : o ∈ g.occurrences)
    (hrest : g.Derives (unmarked o.rest) []) (h : g.Follows o.left k) : g.Follows o.symbol k := by
  obtain ⟨-, front, hleft⟩ := derives_of_mem_occurrences ho
  have hend : g.Derives [o.left] (front ++ [o.symbol]) := by
    have := hrest.in_context (front ++ [o.symbol]) []
    simp only [List.append_assoc, List.singleton_append, List.append_nil] at this
    exact hleft.trans this
  rcases h with ⟨rfl, x, h⟩ | ⟨hne, hk, a, x, y, ha, h⟩
  · refine Or.inl ⟨rfl, x ++ front, h.trans ?_⟩
    simpa using hend.in_context x []
  · refine Or.inr ⟨hne, hk, a, x ++ front, y, ha, h.trans ?_⟩
    simpa using hend.in_context x (k :: y)

theorem follows_of_mem_followAt (hg : g.WellFormed) (ht : g.SoundFollow t)
    (ho : o ∈ g.occurrences) (hk : k ∈ followAt g.first t o) : g.Follows o.symbol k := by
  rcases mem_followAt.mp hk with ⟨hk, hne⟩ | ⟨hrest, hk⟩
  · obtain ⟨hn, u, hu⟩ := (begins_of_ne hne).mp (g.soundFirst_first.firstOf hk)
    have hterm := isTerminal_of_derives_rest hg ho hu hn hne
    obtain ⟨ha, front, hleft⟩ := derives_of_mem_occurrences ho
    refine Or.inr ⟨hterm.ne_endMark, hterm, o.left, front, u, ha, hleft.trans ?_⟩
    simpa using hu.in_context (front ++ [o.symbol]) []
  · have hvanish := begins_epsilon.mp (g.soundFirst_first.firstOf hrest)
    exact (ht o.left k hk).2.of_mem_occurrences ho hvanish

theorem SoundFollow.add (hg : g.WellFormed) (ht : g.SoundFollow t) (ho : o ∈ g.occurrences) :
    g.SoundFollow (t.add o.symbol (followAt g.first t o)) := by
  intro i k hk
  rcases SetTable.mem_or_of_mem_get_add hk with hold | ⟨rfl, hnew⟩
  · exact ht i k hold
  · exact ⟨(g.mem_occurrences.mp ho).1, follows_of_mem_followAt hg ht ho hnew⟩

theorem soundFollow_follow (hg : g.WellFormed) : g.SoundFollow (g.follow g.first) := by
  rw [follow_eq_settle_fill]
  refine SetTable.settle_fill_induct (fun _ h _ ho => h.add hg ho) fun i k hk => ?_
  obtain ⟨-, rfl, rfl⟩ := mem_get_followStart.mp hk
  exact ⟨hg.isNonTerminal_start, Or.inl ⟨rfl, [], .refl _⟩⟩

/-! ## FOLLOW holds no less -/

theorem within_followStart (g : Grammar) : g.followStart.Within g.symbolCount := by
  refine ⟨SetTable.size_tabulate _ _, fun i k hk => ?_⟩
  obtain ⟨-, -, rfl⟩ := mem_get_followStart.mp hk
  rw [symbolCount_eq, endMark]
  omega

theorem lt_of_mem_followAt (ht : t.Within g.symbolCount) (hk : k ∈ followAt g.first t o) :
    k < g.symbolCount := by
  rcases mem_followAt.mp hk with ⟨hk, -⟩ | ⟨-, hk⟩
  · exact lt_of_mem_firstOf g.within_first hk
  · exact ht.lt _ k hk

theorem within_follow (g : Grammar) : (g.follow g.first).Within g.symbolCount := by
  rw [follow_eq_settle_fill]
  exact SetTable.within_settle_fill (fun t ht o _ k hk => lt_of_mem_followAt ht hk)
    g.within_followStart

theorem endMark_mem_follow_start (hg : g.WellFormed) :
    endMark ∈ (g.follow g.first).get start := by
  have hle : g.followStart ≤ g.follow g.first := SetTable.le_settle_fill _ _ _ _
  have hlt := hg.isNonTerminal_start.lt_symbolCount
  exact hle.2 start _ (mem_get_followStart.mpr ⟨hlt, rfl, rfl⟩)

/-- The last pass added nothing. -/
theorem followAt_subset (ho : o ∈ g.occurrences) :
    followAt g.first (g.follow g.first) o ⊆ (g.follow g.first).get o.symbol := by
  rw [follow_eq_settle_fill]
  exact SetTable.gain_subset_settle_fill (fun t ht o _ k hk => lt_of_mem_followAt ht hk)
    g.within_followStart ho (g.mem_occurrences.mp ho).1.lt_symbolCount

/-- What each non-terminal of `s` would gain there, if `a` were on the left, it has. -/
def Covers (g : Grammar) (t : SetTable) (a : Nat) (s : List Nat) : Prop :=
  ∀ x i y, s = x ++ i :: y → g.IsNonTerminal i → followAt g.first t ⟨a, i, y⟩ ⊆ t.get i

theorem covers_singleton (t : SetTable) (a : Nat) : g.Covers t a [a] := by
  intro x i y h _ k hk
  obtain ⟨rfl, h⟩ := List.append_eq_singleton_iff.mp h.symm |>.resolve_right (by simp)
  obtain ⟨rfl, rfl⟩ := List.cons.inj h
  rcases mem_followAt.mp hk with ⟨hk, hne⟩ | ⟨-, hk⟩
  · exact absurd (IndexSet.mem_single.mp hk) hne
  · exact hk

theorem covers_right {p : Production} (hp : p ∈ g.productions) :
    g.Covers (g.follow g.first) p.left (unmarked p.right) := by
  intro x i y h hi
  obtain ⟨front, rest, hright, -, rfl⟩ := exists_of_unmarked_eq_append h
  have ho : ⟨p.left, i, rest⟩ ∈ g.occurrences :=
    g.mem_occurrences.mpr ⟨hi, front, by rw [← hright]; exact hp⟩
  intro k hk
  refine followAt_subset ho k ?_
  rw [mem_followAt] at hk ⊢
  rwa [SetTable.firstOf_unmarked g.get_first_epsilon] at hk

theorem Covers.of_expands (hs : g.Covers (g.follow g.first) a s) (h : g.Expands s u) :
    g.Covers (g.follow g.first) a u := by
  cases h with
  | @intro front back p hp =>
    intro x i y h hi k hk
    rw [List.append_assoc] at h
    rcases append_cons_eq_append h.symm with ⟨z, rfl, rfl⟩ | ⟨z, hx, hz⟩
    · -- in front of the expansion : FIRST of what comes behind does not grow
      refine hs x i (z ++ p.left :: back) (by simp) hi k (mem_followAt.mpr ?_)
      have hsub := firstOf_subset_of_expands (Expands.intro z back hp)
      rw [List.append_assoc] at hsub
      exact (mem_followAt.mp hk).imp (And.imp_left (hsub k)) (And.imp_left (hsub _))
    · rcases append_cons_eq_append hz.symm with ⟨z', hright, rfl⟩ | ⟨z', rfl, hback⟩
      · -- in the new part : it is covered there for `p.left`, which is covered in `s`
        refine covers_right hp z i z' hright hi k (mem_followAt.mpr ?_)
        have hleft : ∀ j ∈ followAt g.first (g.follow g.first) ⟨a, p.left, back⟩,
            j ∈ (g.follow g.first).get p.left :=
          hs front p.left back rfl (g.isNonTerminal_of_mem_productions hp)
        rw [mem_followAt] at hk
        simp only [SetTable.mem_firstOf_append] at hk
        rcases hk with ⟨⟨hk, -⟩ | ⟨hvanish, hk⟩, hne⟩ | ⟨⟨-, hne⟩ | ⟨hvanish, hb⟩, hk⟩
        · exact Or.inl ⟨hk, hne⟩
        · exact Or.inr ⟨hvanish, hleft k (mem_followAt.mpr (Or.inl ⟨hk, hne⟩))⟩
        · exact absurd rfl hne
        · exact Or.inr ⟨hvanish, hleft k (mem_followAt.mpr (Or.inr ⟨hb, hk⟩))⟩
      · -- behind it : nothing has changed
        exact hs (front ++ p.left :: z') i y (by simp [hback]) hi k hk

theorem Covers.of_derives (hs : g.Covers (g.follow g.first) a s) (h : g.Derives s u) :
    g.Covers (g.follow g.first) a u := by
  induction h with
  | refl => exact hs
  | head first _ ih => exact ih (hs.of_expands first)

/-! ## FOLLOW by derivations -/

theorem mem_follow_iff_follows (hg : g.WellFormed) (hi : g.IsNonTerminal i) :
    k ∈ (g.follow g.first).get i ↔ g.Follows i k := by
  refine ⟨fun hk => (soundFollow_follow hg i k hk).2, ?_⟩
  rintro (⟨rfl, x, h⟩ | ⟨-, hk, a, x, y, -, h⟩)
  · have hcovers := (covers_singleton _ start).of_derives h
    refine hcovers x i [] rfl hi _ (mem_followAt.mpr (Or.inr ⟨?_, ?_⟩))
    · exact IndexSet.mem_single.mpr rfl
    · exact endMark_mem_follow_start hg
  · have hcovers := (covers_singleton _ a).of_derives h
    refine hcovers x i (k :: y) rfl hi k (mem_followAt.mpr (Or.inl ?_))
    refine ⟨SetTable.mem_firstOf_cons.mpr (Or.inl ⟨?_, hk.ne_epsilon⟩), hk.ne_epsilon⟩
    rw [get_first_of_not_isNonTerminal hk.2 hk.not_isNonTerminal]
    exact IndexSet.mem_single.mpr rfl

theorem mem_get_follow_cases (hg : g.WellFormed) (hi : g.IsNonTerminal i)
    (hk : k ∈ (g.follow g.first).get i) : k = endMark ∨ g.IsTerminal k := by
  rcases (mem_follow_iff_follows hg hi).mp hk with ⟨rfl, -⟩ | ⟨-, ht, -⟩
  · exact Or.inl rfl
  · exact Or.inr ht

theorem get_follow_of_not_isNonTerminal (hg : g.WellFormed) (hi : ¬g.IsNonTerminal i) :
    (g.follow g.first).get i = ∅ :=
  IndexSet.ext fun k => ⟨fun hk => absurd (soundFollow_follow hg i k hk).1 hi,
    fun hk => absurd hk (IndexSet.not_mem_empty k)⟩

/-- What some non-terminal derives, the start symbol derives around it, if it derives a
string with that non-terminal. -/
theorem exists_derives_start {a k : Nat} {x y : List Nat}
    (hstart : ∃ x y, g.Derives [start] (x ++ a :: y)) (h : g.Derives [a] (x ++ i :: k :: y)) :
    ∃ x y, g.Derives [start] (x ++ i :: k :: y) := by
  obtain ⟨v, w, hs⟩ := hstart
  refine ⟨v ++ x, y ++ w, hs.trans ?_⟩
  simpa using h.in_context v w

/-- FOLLOW of every number in use is defined. For a non-terminal it holds a symbol other
than the end mark exactly if that is a terminal and stands right behind the non-terminal in
a string that some non-terminal derives, the end mark exactly if the non-terminal stands at
the end of a string that the start symbol derives, and never `ε`; for all else it is empty.
If every non-terminal occurs in what the start symbol derives, the start symbol is enough. -/
theorem mem_follow_follow_iff {rules : List Rule} (h : ofRules rules = .ok g) :
    (∀ i, g.IsNonTerminal i → ∃ set, (g.follow g.first).get? i = some set ∧
      (∀ t, t ≠ endMark → (t ∈ set ↔ g.IsTerminal t ∧
        ∃ a x y, g.IsNonTerminal a ∧ g.Derives [a] (x ++ i :: t :: y))) ∧
      (endMark ∈ set ↔ ∃ x, g.Derives [start] (x ++ [i])) ∧ epsilon ∉ set ∧
      ((∀ a, g.IsNonTerminal a → ∃ x y, g.Derives [start] (x ++ a :: y)) →
        ∀ t, t ≠ endMark → (t ∈ set ↔ g.IsTerminal t ∧
          ∃ x y, g.Derives [start] (x ++ i :: t :: y)))) ∧
    ∀ i, i < g.symbolCount → ¬g.IsNonTerminal i → (g.follow g.first).get? i = some ∅ := by
  have hg := wellFormed_of_ofRules h
  refine ⟨fun i hi => ?_, fun i hlt hi => ?_⟩
  · have hmem : ∀ t, t ≠ endMark → (t ∈ (g.follow g.first).get i ↔ g.IsTerminal t ∧
        ∃ a x y, g.IsNonTerminal a ∧ g.Derives [a] (x ++ i :: t :: y)) := fun t ht => by
      rw [mem_follow_iff_follows hg hi, follows_of_ne ht]
    refine ⟨_, g.within_follow.get?_eq hi.lt_symbolCount, hmem, ?_, ?_, fun hstart t ht => ?_⟩
    · rw [mem_follow_iff_follows hg hi, follows_endMark]
    · rw [hmem epsilon (by decide)]
      rintro ⟨hterm, -⟩
      exact hterm.ne_epsilon rfl
    · rw [hmem t ht]
      refine and_congr_right fun _ => ⟨?_, ?_⟩
      · rintro ⟨a, x, y, ha, hder⟩
        exact exists_derives_start (hstart a ha) hder
      · rintro ⟨x, y, hder⟩
        exact ⟨start, x, y, hg.isNonTerminal_start, hder⟩
  · rw [g.within_follow.get?_eq hlt, get_follow_of_not_isNonTerminal hg hi]

/-- The start symbol derives a string with `c` right behind the symbol that vanishes, and
none that ends with that symbol. -/
theorem mem_follow_follow_hidden : ofRules hiddenRules = .ok hiddenGrammar ∧
    (∃ x y, hiddenGrammar.Derives [start] (x ++ 3 :: 6 :: y)) ∧
    ¬∃ x, hiddenGrammar.Derives [start] (x ++ [3]) := by
  have hok : ofRules hiddenRules = .ok hiddenGrammar := rfl
  have hstart : ∀ a, hiddenGrammar.IsNonTerminal a →
      ∃ x y, hiddenGrammar.Derives [start] (x ++ a :: y) := by
    intro a ha
    have hcases : a = 2 ∨ a = 3 ∨ a = 4 := by
      have hle : 2 ≤ a := ha.1
      have hlt : a < 2 + 3 := ha.2
      omega
    rcases hcases with rfl | rfl | rfl
    · exact ⟨[], [], .refl _⟩
    · exact ⟨[], [2, 5], derives_nonTerminal (p := ⟨2, [3, 2, 5]⟩) (by decide)⟩
    · exact ⟨[], [], derives_nonTerminal (p := ⟨2, [4]⟩) (by decide)⟩
  obtain ⟨set, hset, -, hend, -, hmem⟩ := (mem_follow_follow_iff hok).1 3 (by decide)
  obtain rfl := Option.some.inj
    ((hiddenGrammar.within_follow.get?_eq (i := 3) (by decide)).symm.trans hset)
  refine ⟨hok, ?_, ?_⟩
  · exact ((hmem hstart 6 (by decide)).mp (by decide +kernel)).2
  · intro hx
    exact absurd (hend.mpr hx) (by decide +kernel)

end Grammar

end Lookahead
