import Mathlib.Data.List.Permutation
import Mathlib.Data.Set.Function
import Lookahead.Proofs.Grammar.Extension
import Lookahead.Proofs.LeftCorner.LeftRecursive
import Lookahead.Proofs.Report.JsonSummary

/-!
# What the rows of the reports list

A row shows a set as a list of names (`Grammar.Lists`). In front stand the names of the members that
are no markers, in ascending order, and each leads back to its member. Behind them comes the end
mark and then the empty string, if the set holds them. Sorting leaves no choice, so that it does not
matter in which order the members are read (`eq_symbolNames`).

Names can be misleading. A terminal may be written like the end mark, and a non-terminal like the
empty string. FIRST and FOLLOW of a non-terminal hold terminals and markers only, and no terminal is
written like the empty string. So the names say what the members are unless a terminal is written
like the end mark (`Lists.eq`).

`reports_list_sets` : the rows of all three reports.
-/

namespace Lookahead

open Grammar (start epsilon endMark)
open Rules (number)

namespace Grammar

variable {g : Grammar} {rules : List Rule} {set set' : IndexSet} {list names : List String}
  {order : List Nat} {name : String} {i j k : Nat}

/-! ## The names of a set -/

/-- The list shows the set by name : in front the members that are no markers, whose names ascend
and lead back to them one by one, then the markers. -/
def Lists (g : Grammar) (set : IndexSet) (list : List String) : Prop :=
  ∃ names, list = names
      ++ (if endMark ∈ set then [endMarkName] else [])
      ++ (if epsilon ∈ set then [epsilonName] else []) ∧
    names.Pairwise (· < ·) ∧
    Set.BijOn g.indexOf? {name | name ∈ names}
      {x | ∃ k ∈ set, k ≠ epsilon ∧ k ≠ endMark ∧ some k = x}

theorem mem_symbolNames : name ∈ g.symbolNames set ↔
    ∃ k ∈ set, k ≠ epsilon ∧ k ≠ endMark ∧ g.name k = name := by
  simp [symbolNames, IndexSet.mem_toList, and_assoc]

theorem pairwise_le_symbolNames (g : Grammar) (set : IndexSet) :
    (g.symbolNames set).Pairwise (· ≤ ·) := by
  have htrans (a b c : String) (hab : decide (a ≤ b) = true) (hbc : decide (b ≤ c) = true) :
      decide (a ≤ c) = true :=
    decide_eq_true (String.le_trans (of_decide_eq_true hab) (of_decide_eq_true hbc))
  have htotal (a b : String) : (decide (a ≤ b) || decide (b ≤ a)) = true := by
    simpa using String.le_total a b
  exact (List.pairwise_mergeSort htrans htotal _).imp of_decide_eq_true

/-- In whatever order the members come, these are their names in order. -/
theorem eq_symbolNames (horder : order.Perm set.toList)
    (hnames : names.Perm ((order.filter fun k => k ≠ epsilon ∧ k ≠ endMark).map g.name))
    (hsorted : names.Pairwise (· ≤ ·)) : names = g.symbolNames set := by
  have hperm : names.Perm (g.symbolNames set) :=
    hnames.trans (((horder.filter _).map _).trans (List.mergeSort_perm _ _).symm)
  exact hperm.eq_of_pairwise (fun _ _ _ _ => String.le_antisymm) hsorted
    (pairwise_le_symbolNames g set)

section

variable (hg : g.WellFormed) (hset : ∀ k ∈ set, k < g.symbolCount)
include hg hset

theorem indexOf?_name_of_mem (hk : k ∈ set) (heps : k ≠ epsilon) (hend : k ≠ endMark) :
    g.indexOf? (g.name k) = some k := by
  refine hg.indexOf?_name ?_ (hset k hk)
  show 2 ≤ k
  have : k ≠ 0 ∧ k ≠ 1 := ⟨heps, hend⟩
  omega

/-- No name comes twice. -/
theorem pairwise_lt_symbolNames : (g.symbolNames set).Pairwise (· < ·) := by
  have hnodup : (g.symbolNames set).Nodup := by
    refine (List.mergeSort_perm _ _).nodup_iff.mpr ((set.nodup_toList.filter _).map_on ?_)
    intro i hi j hj hname
    obtain ⟨hi, hki⟩ := List.mem_filter.mp hi
    obtain ⟨hj, hkj⟩ := List.mem_filter.mp hj
    simp only [decide_eq_true_eq] at hki hkj
    have hindex := indexOf?_name_of_mem hg hset hi hki.1 hki.2
    rw [hname, indexOf?_name_of_mem hg hset hj hkj.1 hkj.2] at hindex
    exact (Option.some.inj hindex).symm
  exact (pairwise_le_symbolNames g set).imp₂
    (fun a b hle hne => String.not_le.mp fun hge => hne (String.le_antisymm hle hge)) hnodup

theorem bijOn_symbolNames : Set.BijOn g.indexOf? {name | name ∈ g.symbolNames set}
    {x | ∃ k ∈ set, k ≠ epsilon ∧ k ≠ endMark ∧ some k = x} := by
  refine ⟨?_, ?_, ?_⟩
  · rintro name hname
    obtain ⟨k, hk, heps, hend, rfl⟩ := mem_symbolNames.mp hname
    exact ⟨k, hk, heps, hend, (indexOf?_name_of_mem hg hset hk heps hend).symm⟩
  · rintro name hname name' hname' heq
    obtain ⟨k, hk, heps, hend, rfl⟩ := mem_symbolNames.mp hname
    rw [indexOf?_name_of_mem hg hset hk heps hend] at heq
    exact name_of_indexOf? heq.symm
  · rintro _ ⟨k, hk, heps, hend, rfl⟩
    exact ⟨g.name k, mem_symbolNames.mpr ⟨k, hk, heps, hend, rfl⟩,
      indexOf?_name_of_mem hg hset hk heps hend⟩

theorem lists_memberNames : g.Lists set (g.memberNames set) :=
  ⟨_, rfl, pairwise_lt_symbolNames hg hset, bijOn_symbolNames hg hset⟩

end

/-! ## What the names say -/

/-- A list that shows a set holds the names of its members, the markers included. -/
theorem Lists.mem_iff (h : g.Lists set list) : name ∈ list ↔ ∃ k ∈ set, g.name k = name := by
  obtain ⟨names, rfl, -, hbij⟩ := h
  simp only [List.mem_append, List.mem_ite_nil_right, List.mem_singleton]
  constructor
  · rintro ((hname | ⟨hk, rfl⟩) | ⟨hk, rfl⟩)
    · obtain ⟨k, hk, -, -, hindex⟩ := hbij.mapsTo hname
      exact ⟨k, hk, name_of_indexOf? hindex.symm⟩
    · exact ⟨endMark, hk, rfl⟩
    · exact ⟨epsilon, hk, rfl⟩
  · rintro ⟨k, hk, rfl⟩
    by_cases heps : k = epsilon
    · exact Or.inr ⟨heps ▸ hk, heps ▸ rfl⟩
    by_cases hend : k = endMark
    · exact Or.inl (Or.inr ⟨hend ▸ hk, hend ▸ rfl⟩)
    · obtain ⟨name, hname, hindex⟩ := hbij.surjOn ⟨k, hk, heps, hend, rfl⟩
      rw [name_of_indexOf? hindex]
      exact Or.inl (Or.inl hname)

section

variable (h : ofRules rules = .ok g)
include h

theorem name_ne_epsilonName (hk : g.IsTerminal k) : g.name k ≠ epsilonName :=
  (Rules.mem_terminalNames.mp (name_mem_terminalNames h hk)).2.2

/-- The empty string is the last in the list exactly if it is in the set. -/
theorem Lists.getLast?_eq_iff (hlist : g.Lists set list)
    (hset : ∀ k ∈ set, k = epsilon ∨ g.IsTerminal k) :
    list.getLast? = some epsilonName ↔ epsilon ∈ set := by
  constructor
  · intro hlast
    obtain ⟨k, hk, hname⟩ := hlist.mem_iff.mp (List.mem_of_getLast? hlast)
    rcases hset k hk with rfl | ht
    · exact hk
    · exact absurd hname (name_ne_epsilonName h ht)
  · intro hk
    obtain ⟨names, rfl, -⟩ := hlist
    rw [if_pos hk, List.getLast?_concat]

/-- Where no terminal is written like the end mark, terminals and markers have names of their
own. -/
theorem eq_of_name_eq (hend : endMarkName ∉ g.terminals)
    (hi : i = epsilon ∨ i = endMark ∨ g.IsTerminal i)
    (hj : j = epsilon ∨ j = endMark ∨ g.IsTerminal j) (hname : g.name i = g.name j) : i = j := by
  have hread (k : Nat) (hk : k = epsilon ∨ k = endMark ∨ g.IsTerminal k) :
      (if g.name k = epsilonName then epsilon else if g.name k = endMarkName then endMark
        else number g.names (g.name k)) = k := by
    rcases hk with rfl | rfl | ht
    · rfl
    · rfl
    · have hne : g.name k ≠ endMarkName := by
        rw [(ofRules_eq_ok h).2.2] at hend
        exact fun heq => hend (heq ▸ name_mem_terminalNames h ht)
      rw [if_neg (name_ne_epsilonName h ht), if_neg hne]
      exact number_name h (Nat.le_trans (Nat.le_add_right _ _) ht.1) ht.2
  rw [← hread i hi, hname, hread j hj]

/-- Sets of terminals and markers that are shown by one list are equal. -/
theorem Lists.eq (hend : endMarkName ∉ g.terminals)
    (hset : ∀ k ∈ set, k = epsilon ∨ k = endMark ∨ g.IsTerminal k)
    (hset' : ∀ k ∈ set', k = epsilon ∨ k = endMark ∨ g.IsTerminal k)
    (hlist : g.Lists set list) (hlist' : g.Lists set' list) : set = set' := by
  refine IndexSet.ext fun k => ⟨fun hk => ?_, fun hk => ?_⟩
  · obtain ⟨k', hk', hname⟩ := hlist'.mem_iff.mp (hlist.mem_iff.mpr ⟨k, hk, rfl⟩)
    exact eq_of_name_eq h hend (hset' k' hk') (hset k hk) hname ▸ hk'
  · obtain ⟨k', hk', hname⟩ := hlist.mem_iff.mp (hlist'.mem_iff.mpr ⟨k, hk, rfl⟩)
    exact eq_of_name_eq h hend (hset k' hk') (hset' k hk) hname ▸ hk'

end

/-! ## The rows -/

/-- The set is FIRST or FOLLOW of a non-terminal. -/
def IsReported (g : Grammar) (set : IndexSet) : Prop :=
  ∃ i, g.IsNonTerminal i ∧ (set = g.analysis.first.get i ∨ set = g.analysis.follow.get i)

theorem IsReported.cases (hg : g.WellFormed) (hset : g.IsReported set) (hk : k ∈ set) :
    k = epsilon ∨ k = endMark ∨ g.IsTerminal k := by
  obtain ⟨i, hi, rfl | rfl⟩ := hset
  · exact (mem_get_first_cases hg hi hk).imp_right Or.inr
  · exact Or.inr (mem_get_follow_cases hg hi hk)

/-- The table of both sets has the rows of the reports on each, in the same order and with the same
lists, one for each non-terminal. The lists of a row show FIRST and FOLLOW of its non-terminal. The
end mark is in no FIRST set and the empty string in no FOLLOW set, and the non-terminal is marked as
nullable exactly if the list of FIRST ends with the empty string. In whatever order the members of a
set are read, sorting gives the same names. If no terminal is written like the end mark, a list shows
one of these sets only. -/
theorem reports_list_sets (h : ofRules rules = .ok g) :
    ((g.summary g.analysis).rows.map fun row => SetRow.mk row.name row.first) =
      (g.firstReport g.analysis).rows ∧
    ((g.summary g.analysis).rows.map fun row => SetRow.mk row.name row.follow) =
      (g.followReport g.analysis).rows ∧
    (g.summary g.analysis).rows.length = g.nonTerminals.length ∧
    (∀ k nt, g.nonTerminals[k]? = some nt →
      ∃ row, (g.summary g.analysis).rows[k]? = some row ∧ row.name = nt.name ∧
        g.Lists (g.analysis.first.get (start + k)) row.first ∧
        g.Lists (g.analysis.follow.get (start + k)) row.follow ∧
        endMark ∉ g.analysis.first.get (start + k) ∧
        epsilon ∉ g.analysis.follow.get (start + k) ∧
        (row.nullable = true ↔ row.first.getLast? = some epsilonName)) ∧
    (∀ (set : IndexSet) (order : List Nat) (names : List String), order.Perm set.toList →
      names.Perm ((order.filter fun k => k ≠ epsilon ∧ k ≠ endMark).map g.name) →
      names.Pairwise (· ≤ ·) → names = g.symbolNames set) ∧
    (endMarkName ∉ g.terminals → ∀ set set' list, g.IsReported set → g.IsReported set' →
      g.Lists set list → g.Lists set' list → set = set') := by
  have hg := wellFormed_of_ofRules h
  refine ⟨?_, ?_, ?_, fun k nt hnt => ?_, fun _ _ _ => eq_symbolNames,
    fun hend set set' list hset hset' => Lists.eq h hend (fun _ => hset.cases hg)
      fun _ => hset'.cases hg⟩
  · simp [summary, firstReport, setRows]
  · simp [summary, followReport, setRows]
  · simp [summary, nonTerminalIndexes]
  · have hrow := g.getElem?_rows_summary g.analysis k
    rw [hnt, Option.map_some] at hrow
    have hi : g.IsNonTerminal (start + k) :=
      ⟨Nat.le_add_right _ _, Nat.add_lt_add_left (List.getElem?_eq_some_iff.mp hnt).1 _⟩
    have hfirst := lists_memberNames hg (g.within_first.lt (start + k))
    have hcases : ∀ j ∈ g.first.get (start + k), j = epsilon ∨ g.IsTerminal j :=
      fun _ => mem_get_first_cases hg hi
    refine ⟨_, hrow, rfl, hfirst, lists_memberNames hg (g.within_follow.lt (start + k)),
      fun hk => ?_, fun hk => ?_, ?_⟩
    · exact (hcases _ hk).elim (by decide) fun ht => ht.ne_endMark rfl
    · exact (mem_get_follow_cases hg hi hk).elim (by decide) fun ht => ht.ne_epsilon rfl
    · rw [decide_eq_true_eq]
      exact (hfirst.getLast?_eq_iff h hcases).symm

/-- Rules with a terminal that is written like the end mark. -/
def endNamedRules : List Rule :=
  [⟨"S", [["A", "$"], ["b", "S"]]⟩, ⟨"A", [["c"], []]⟩]

/-- The grammar of `endNamedRules`. -/
def endNamedGrammar : Grammar :=
  ⟨[⟨"S", [[3, 4], [5, 2]]⟩, ⟨"A", [[6], []]⟩], ["$", "b", "c"]⟩

theorem rows_summary_endNamedGrammar : (endNamedGrammar.summary endNamedGrammar.analysis).rows =
    [⟨"S", false, ["$", "b", "c"], ["$"]⟩, ⟨"A", true, ["c", "ε"], ["$"]⟩] := by
  cbv

theorem head?_rows_summary_sumGrammar : (sumGrammar.summary sumGrammar.analysis).rows[0]? =
    some ⟨"E", false, ["(", "int"], [")", "$"]⟩ := by
  cbv

/-- Next to `S` comes the end, and next to `A` the terminal `$`, but both lists are the same. In the
other grammar the list of FIRST of `E` shows that set only. -/
theorem reports_list_sets_dollar : ofRules endNamedRules = .ok endNamedGrammar ∧
    endNamedGrammar.Lists (endNamedGrammar.first.get 2) ["$", "b", "c"] ∧
    endNamedGrammar.Lists (endNamedGrammar.first.get 3) ["c", "ε"] ∧
    endNamedGrammar.Lists ((endNamedGrammar.follow endNamedGrammar.first).get 2) ["$"] ∧
    endNamedGrammar.Lists ((endNamedGrammar.follow endNamedGrammar.first).get 3) ["$"] ∧
    (endNamedGrammar.follow endNamedGrammar.first).get 2 ≠
      (endNamedGrammar.follow endNamedGrammar.first).get 3 ∧
    ∀ set, sumGrammar.IsReported set → sumGrammar.Lists set ["(", "int"] →
      set = sumGrammar.first.get 2 := by
  have hdollar : ofRules endNamedRules = .ok endNamedGrammar := by decide +kernel
  have hsum : ofRules sumRules = .ok sumGrammar := rfl
  obtain ⟨-, -, -, hrows, -, -⟩ := reports_list_sets hdollar
  obtain ⟨rowS, hS, -, hfirstS, hfollowS, -⟩ := hrows 0 _ rfl
  obtain ⟨rowA, hA, -, hfirstA, hfollowA, -⟩ := hrows 1 _ rfl
  rw [rows_summary_endNamedGrammar] at hS hA
  obtain rfl := Option.some.inj hS
  obtain rfl := Option.some.inj hA
  obtain ⟨-, -, -, hsumRows, -, hdetermined⟩ := reports_list_sets hsum
  obtain ⟨rowE, hE, -, hfirstE, -⟩ := hsumRows 0 _ rfl
  rw [head?_rows_summary_sumGrammar] at hE
  obtain rfl := Option.some.inj hE
  refine ⟨hdollar, hfirstS, hfirstA, hfollowS, hfollowA, by decide +kernel,
    fun set hset hlist => ?_⟩
  exact hdetermined (by decide) _ _ _ hset ⟨2, by decide, Or.inl rfl⟩ hlist hfirstE

end Grammar

end Lookahead
