import Lookahead.Lookups
import Lookahead.Proofs.Grammar.Spelling
import Lookahead.Proofs.LeftCorner.Links
import Lookahead.Proofs.Sets.PassCount

/-!
# Every look-up finds something

The grammar of a list of rules keeps to numbers in use, and so do its sets (`NumbersInUse`). For all
that is computed from them, every look-up finds what it looks for, and the analysis and the reports
come to what they are said to be (`LookupsSucceed`).

A string from elsewhere can hold any numbers. FIRST of it is computed up to the first symbol that
cannot vanish, so it fails exactly if a number that is not in use comes before any such symbol
(`SetTable.firstOf?_eq_none_iff`), and what stands behind that symbol does not matter
(`SetTable.firstOf?_append_cons`).

`Grammar.lookups_of_ofRules` : all of this for the grammar of a list of rules.
-/

namespace Lookahead

open Grammar (epsilon endMark start)

/-! ## FIRST of any string -/

namespace SetTable

variable {t : SetTable} {i : Nat} {s u : List Nat}

/-- All symbols of the string have a row, which says that they can vanish. -/
def CanSkip (t : SetTable) (string : List Nat) : Prop :=
  ∀ i ∈ string, i < t.size ∧ t.IsNullable i

theorem firstOf?_cons (hi : i < t.size) (s : List Nat) : t.firstOf? (i :: s) =
    if t.IsNullable i then (t.firstOf? s).map ((t.get i).erase epsilon ∪ ·)
    else some (t.get i) := by
  rw [firstOf?, get?_of_lt_size hi]
  rfl

theorem firstOf?_eq_none_iff :
    t.firstOf? s = none ↔ ∃ u i v, s = u ++ i :: v ∧ t.size ≤ i ∧ t.CanSkip u := by
  induction s with
  | nil => simp [firstOf?]
  | cons i s ih =>
    by_cases hi : i < t.size
    · rw [firstOf?_cons hi]
      by_cases hnull : t.IsNullable i
      · rw [if_pos hnull, Option.map_eq_none_iff, ih]
        constructor
        · rintro ⟨u, j, v, rfl, hj, hu⟩
          exact ⟨i :: u, j, v, rfl, hj, List.forall_mem_cons.mpr ⟨⟨hi, hnull⟩, hu⟩⟩
        · rintro ⟨u, j, v, heq, hj, hu⟩
          cases u with
          | nil =>
            obtain ⟨rfl, -⟩ := List.cons.inj heq
            omega
          | cons k u =>
            obtain ⟨rfl, rfl⟩ := List.cons.inj heq
            exact ⟨u, j, v, rfl, hj, (List.forall_mem_cons.mp hu).2⟩
      · rw [if_neg hnull]
        refine iff_of_false (by simp) ?_
        rintro ⟨u, j, v, heq, hj, hu⟩
        cases u with
        | nil =>
          obtain ⟨rfl, -⟩ := List.cons.inj heq
          omega
        | cons k u =>
          obtain ⟨rfl, rfl⟩ := List.cons.inj heq
          exact hnull (hu _ List.mem_cons_self).2
    · have hrow : t.get? i = none := List.getElem?_eq_none (Nat.le_of_not_lt hi)
      refine iff_of_true (by rw [firstOf?, hrow]) ⟨[], i, s, rfl, Nat.le_of_not_lt hi, ?_⟩
      exact List.forall_mem_nil _

/-- Behind a symbol that cannot vanish nothing is read. -/
theorem firstOf?_append_cons (hu : t.CanSkip u) (hi : i < t.size) (hnull : ¬t.IsNullable i)
    (v : List Nat) : t.firstOf? (u ++ i :: v) = some (t.firstOf (u ++ [i])) := by
  induction u with
  | nil =>
    rw [List.nil_append, List.nil_append, firstOf?_cons hi, if_neg hnull,
      firstOf_cons_of_not_isNullable hnull]
  | cons j u ih =>
    obtain ⟨⟨hj, hskip⟩, hu⟩ := List.forall_mem_cons.mp hu
    rw [List.cons_append, List.cons_append, firstOf?_cons hj, if_pos hskip, ih hu,
      firstOf_cons_of_isNullable hskip]
    rfl

end SetTable

namespace Grammar

variable {g : Grammar} {first t : SetTable} {set : IndexSet} {s : List Nat} {left : Nat}

/-! ## The analysis -/

theorem occurrencesIn?_eq (hs : g.InUse s) :
    g.occurrencesIn? left s = some (g.occurrencesIn left s) := by
  induction s with
  | nil => rfl
  | cons i s ih =>
    obtain ⟨hi, hs⟩ := List.forall_mem_cons.mp hs
    have hsymbol : g.symbol? i = some g.symbols[i] := List.getElem?_eq_getElem hi
    rw [occurrencesIn?, hsymbol, ih hs, occurrencesIn]
    simp [isNonTerminal_symbol_iff hsymbol]

theorem followRound?_eq (hg : g.WellFormed) (first : SetTable) :
    g.followRound? first = g.followRound first := by
  have hmap : g.productions.mapM (fun p => g.occurrencesIn? p.left p.right) =
      some (g.productions.map fun p => g.occurrencesIn p.left p.right) :=
    mapM_eq_some_map fun p hp => occurrencesIn?_eq (hg.lt_of_mem_right p hp)
  funext t
  rw [followRound?, hmap]
  rfl

theorem solveFollow?_eq (hg : g.WellFormed) : g.solveFollow? g.first =
    some (g.follow g.first,
      .followSets :: passEvents .followPass (g.followLimit g.first).passes) := by
  have hrow := g.within_followStart.get?_eq hg.isNonTerminal_start.lt_symbolCount
  rw [solveFollow?, hrow, followRound?_eq hg]
  exact solveFollow_eq hg

theorem analyze?_eq (hg : g.WellFormed) :
    g.analyze? = some (g.analysisEvents, g.analyze.map fun a => (a.first, a.follow)) := by
  rw [analyze?, findLeftRecursion_eq hg, analysisEvents]
  cases hr : g.leftRecursion? with
  | some r =>
    rw [g.analyze_eq_error_iff.mpr hr]
    rfl
  | none =>
    rw [g.analyze_eq_ok_iff.mpr ⟨hr, rfl⟩, solveFirst_eq hg]
    simp only [Option.map_none, Option.bind_eq_bind, Option.bind_some, solveFollow?_eq hg]
    rfl

/-! ## The reports -/

theorem WellFormed.inUse_of_mem_nonTerminals (hg : g.WellFormed) {nt : NonTerminal}
    (hnt : nt ∈ g.nonTerminals) {right : List Nat} (hright : right ∈ nt.productions) :
    g.InUse right := by
  obtain ⟨k, hk, rfl⟩ := List.mem_iff_getElem.mp hnt
  have halternatives : right ∈ g.alternatives (start + k) := by
    simpa [alternatives, nonTerminal?, hk] using hright
  exact hg.inUse_of_mem_alternatives halternatives

theorem productionReport?_eq (hg : g.WellFormed) :
    g.productionReport? = some g.productionReport := by
  have hrow : ∀ nt ∈ g.nonTerminals, g.productionRow? nt = some (g.productionRow nt) := by
    intro nt hnt
    rw [productionRow?, mapM_eq_some_map fun right hright =>
      spell?_eq_some (hg.inUse_of_mem_nonTerminals hnt hright)]
    rfl
  rw [productionReport?, mapM_eq_some_map hrow]
  rfl

theorem memberNames?_eq (hset : ∀ k ∈ set, k < g.symbolCount) :
    g.memberNames? set = some (g.memberNames set) := by
  have hnames : (set.toList.filter fun i => i ≠ epsilon ∧ i ≠ endMark).mapM g.name? =
      some ((set.toList.filter fun i => i ≠ epsilon ∧ i ≠ endMark).map g.name) :=
    mapM_eq_some_map fun k hk => name?_eq_some (hset k (List.mem_of_mem_filter hk))
  have hmarkers : ([endMark, epsilon].filter (· ∈ set)).mapM g.name? =
      some (([endMark, epsilon].filter (· ∈ set)).map g.name) :=
    mapM_eq_some_map fun k hk => name?_eq_some (hset k (by simpa using List.of_mem_filter hk))
  have hmap : ([endMark, epsilon].filter (· ∈ set)).map g.name =
      (if endMark ∈ set then [endMarkName] else []) ++
        (if epsilon ∈ set then [epsilonName] else []) := by
    have hend : g.name endMark = endMarkName := rfl
    have heps : g.name epsilon = epsilonName := rfl
    by_cases hend' : endMark ∈ set <;> by_cases heps' : epsilon ∈ set <;>
      simp [hend', heps', hend, heps]
  rw [memberNames?, hnames, hmarkers, hmap, memberNames, List.append_assoc]
  rfl

section Rows

variable {i : Nat} {a : Analysis} (hi : g.IsNonTerminal i)
include hi

theorem setRow?_eq (ht : t.Within g.symbolCount) :
    g.setRow? t i = some ⟨g.name i, g.memberNames (t.get i)⟩ := by
  rw [setRow?, name?_eq_some hi.lt_symbolCount, ht.get?_eq hi.lt_symbolCount]
  simp only [Option.bind_eq_bind, Option.bind_some, memberNames?_eq (ht.lt i)]
  rfl

theorem summaryRow?_eq (hfirst : a.first.Within g.symbolCount)
    (hfollow : a.follow.Within g.symbolCount) : g.summaryRow? a i =
      some ⟨g.name i, decide (a.first.IsNullable i), g.memberNames (a.first.get i),
        g.memberNames (a.follow.get i)⟩ := by
  rw [summaryRow?, name?_eq_some hi.lt_symbolCount, hfirst.get?_eq hi.lt_symbolCount,
    hfollow.get?_eq hi.lt_symbolCount]
  simp only [Option.bind_eq_bind, Option.bind_some, memberNames?_eq (hfirst.lt i),
    memberNames?_eq (hfollow.lt i)]
  rfl

end Rows

theorem mapM_setRow? (ht : t.Within g.symbolCount) :
    g.nonTerminalIndexes.mapM (g.setRow? t) = some (g.setRows t) :=
  mapM_eq_some_map fun _ hi => setRow?_eq (g.mem_nonTerminalIndexes.mp hi) ht

theorem summary?_eq {a : Analysis} (hfirst : a.first.Within g.symbolCount)
    (hfollow : a.follow.Within g.symbolCount) : g.summary? a = some (g.summary a) := by
  rw [summary?, mapM_eq_some_map fun i hi =>
    summaryRow?_eq (g.mem_nonTerminalIndexes.mp hi) hfirst hfollow]
  rfl

/-! ## Numbers in use -/

/-- The productions and the sets hold numbers in use only. There is a set for each number in use,
FIRST of a non-terminal holds only terminals and `ε`, and FOLLOW only terminals and the end mark. -/
structure NumbersInUse (g : Grammar) : Prop where
  right : ∀ p ∈ g.productions, ∀ i ∈ p.right, i < g.symbolCount
  size_first : g.first.size = g.symbolCount
  first : ∀ i set, g.first.get? i = some set → ∀ k ∈ set, k < g.symbolCount
  first_cases : ∀ i set, g.IsNonTerminal i → g.first.get? i = some set →
    ∀ k ∈ set, k = epsilon ∨ g.IsTerminal k
  size_follow : (g.follow g.first).size = g.symbolCount
  follow : ∀ i set, (g.follow g.first).get? i = some set → ∀ k ∈ set, k < g.symbolCount
  follow_cases : ∀ i set, (g.follow g.first).get? i = some set →
    ∀ k ∈ set, k = endMark ∨ g.IsTerminal k

/-- The analysis and the reports come to what they are said to be, and no look-up fails. -/
structure LookupsSucceed (g : Grammar) : Prop where
  findLeftRecursion : g.findLeftRecursion = some (g.leftRecursion?.map fun r => (r.kind, r))
  solveFirst : ∃ log, g.solveFirst = some (g.first, log)
  solveFollow : ∃ log, g.solveFollow? g.first = some (g.follow g.first, log)
  analyze : g.analyze? = some (g.analysisEvents, g.analyze.map fun a => (a.first, a.follow))
  productionReport : g.productionReport? = some g.productionReport
  firstReport : g.firstReport? g.analysis = some (g.firstReport g.analysis)
  followReport : g.followReport? g.analysis = some (g.followReport g.analysis)
  summary : g.summary? g.analysis = some (g.summary g.analysis)
  spell : ∀ p ∈ g.productions, g.spell? p.right = some (g.spell p.right)

theorem numbersInUse (hg : g.WellFormed) : g.NumbersInUse where
  right := hg.lt_of_mem_right
  size_first := g.within_first.size_eq
  first i set hset k hk := g.within_first.lt i k (by rwa [SetTable.get, hset])
  first_cases i set hi hset k hk := mem_get_first_cases hg hi (by rwa [SetTable.get, hset])
  size_follow := g.within_follow.size_eq
  follow i set hset k hk := g.within_follow.lt i k (by rwa [SetTable.get, hset])
  follow_cases i set hset k hk := by
    have hmem : k ∈ (g.follow g.first).get i := by rwa [SetTable.get, hset]
    exact mem_get_follow_cases hg (soundFollow_follow hg i k hmem).1 hmem

theorem lookupsSucceed (hg : g.WellFormed) : g.LookupsSucceed where
  findLeftRecursion := findLeftRecursion_eq hg
  solveFirst := ⟨_, solveFirst_eq hg⟩
  solveFollow := ⟨_, solveFollow?_eq hg⟩
  analyze := analyze?_eq hg
  productionReport := productionReport?_eq hg
  firstReport := by
    rw [firstReport?, mapM_setRow? (t := g.analysis.first) g.within_first]
    rfl
  followReport := by
    rw [followReport?, mapM_setRow? (t := g.analysis.follow) g.within_follow]
    rfl
  summary := summary?_eq (a := g.analysis) g.within_first g.within_follow
  spell p hp := spell?_eq_some (hg.lt_of_mem_right p hp)

/-- The grammar of a list of rules and its sets hold numbers in use only, and all look-ups of the
analysis and of the reports succeed. FIRST of an arbitrary string fails to be computed exactly if a
number that is not in use comes behind symbols in use that can all vanish. Otherwise it does not
depend on what stands behind the first symbol that cannot vanish. -/
theorem lookups_of_ofRules {rules : List Rule} (h : ofRules rules = .ok g) :
    g.NumbersInUse ∧ g.LookupsSucceed ∧
    (∀ s, g.first.firstOf? s = none ↔ ∃ u i v, s = u ++ i :: v ∧ g.symbolCount ≤ i ∧
      ∀ j ∈ u, j < g.symbolCount ∧ g.first.IsNullable j) ∧
    ∀ u i, (∀ j ∈ u, j < g.symbolCount ∧ g.first.IsNullable j) → i < g.symbolCount →
      ¬g.first.IsNullable i → ∃ set, ∀ v, g.first.firstOf? (u ++ i :: v) = some set := by
  have hg := wellFormed_of_ofRules h
  refine ⟨numbersInUse hg, lookupsSucceed hg, ?_, ?_⟩ <;> rw [← g.within_first.size_eq]
  · exact fun s => SetTable.firstOf?_eq_none_iff
  · exact fun u i hu hi hnull => ⟨_, SetTable.firstOf?_append_cons hu hi hnull⟩

/-- Behind the symbol that vanishes, the number 7 is not in use. In front of it `c` ends the scan,
as does `B`, which derives nothing. -/
theorem lookups_of_ofRules_hidden : ofRules hiddenRules = .ok hiddenGrammar ∧
    hiddenGrammar.analyze? = some ([.leftRecursionCheck], .error ⟨"A", [("A", ["A"])]⟩) ∧
    hiddenGrammar.first.firstOf? [3, 0, 7, 6] = none ∧
    (∃ set, ∀ v, hiddenGrammar.first.firstOf? ([3, 0] ++ 6 :: v) = some set) ∧
    ∃ set, ∀ v, hiddenGrammar.first.firstOf? ([] ++ 4 :: v) = some set := by
  have hok : ofRules hiddenRules = .ok hiddenGrammar := rfl
  obtain ⟨-, hlookups, hfail, hstop⟩ := lookups_of_ofRules hok
  have hreport : hiddenGrammar.leftRecursion? = some ⟨"A", [("A", ["A"])]⟩ := by cbv
  have hanalyze := hiddenGrammar.analyze_eq_error_iff.mpr hreport
  refine ⟨hok, ?_, ?_, ?_, ?_⟩
  · rw [hlookups.analyze, analysisEvents, hanalyze]
    rfl
  · exact (hfail _).mpr ⟨[3, 0], 7, [6], rfl, by decide, by decide +kernel⟩
  · exact hstop [3, 0] 6 (by decide +kernel) (by decide) (by decide +kernel)
  · exact hstop [] 4 (by decide) (by decide) (by decide +kernel)

end Grammar

end Lookahead
