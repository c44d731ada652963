import Lookahead.Proofs.LeftCorner.Links

/-!
# The chain of a report

The productions of a report lead from one non-terminal to the next and from the last back to the
first, and each is the first alternative that does. On the numbers this holds as a trail that is
closed leads from the root to the root (`Trail.nodes`), and no non-terminal is on it twice, as the
search found it by walking back. The names of the report say the same as the numbers, since a name
on a right side leads back to its number.

`leftRecursion?_chain` : the chain of any report, and how the search comes to it.
-/

namespace Lookahead

/-! ## The non-terminals of a trail -/

namespace Trail

variable {g : Grammar} {root j n : Nat} {trail : Trail} {p q : Production}

/-- The non-terminals from the root of the trail to its tip. -/
def nodes (trail : Trail) : List Nat :=
  trail.steps.reverse.map Production.left ++ [trail.tip]

theorem length_nodes (trail : Trail) : trail.nodes.length = trail.steps.length + 1 := by
  simp [nodes]

theorem nodes_step (h : p.left = trail.tip) :
    (⟨j, p :: trail.steps⟩ : Trail).nodes = trail.nodes ++ [j] := by
  simp [nodes, h]

theorem From.head?_nodes (h : trail.From g root) : trail.nodes.head? = some root := by
  induction h with
  | start => rfl
  | step way hj hp ih =>
    rw [nodes_step (g.productionTo?_eq_some hp).2.1, List.head?_append, ih]
    rfl

/-- Each step is the first production that takes it. -/
theorem From.exists_productionTo? (h : trail.From g root) (hq : trail.steps.reverse[n]? = some q) :
    ∃ j, trail.nodes[n + 1]? = some j ∧ g.IsNonTerminal j ∧ g.productionTo? q.left j = some q := by
  induction h with
  | start => simp at hq
  | @step trail j p way hj hp ih =>
    have hleft := (g.productionTo?_eq_some hp).2.1
    have hlength := trail.length_nodes
    rw [List.reverse_cons] at hq
    rw [nodes_step hleft]
    rcases Nat.lt_or_ge n trail.steps.length with hn | hn
    · rw [List.getElem?_append_left (by simpa using hn)] at hq
      rw [List.getElem?_append_left (by omega)]
      exact ih hq
    · obtain ⟨hlast, rfl⟩ : n - trail.steps.length = 0 ∧ p = q := by
        rw [List.getElem?_append_right (by simpa using hn), List.length_reverse] at hq
        simpa [List.getElem?_singleton] using hq
      obtain rfl : n = trail.steps.length := by omega
      refine ⟨j, ?_, hj, hleft ▸ hp⟩
      rw [List.getElem?_append_right (by omega), hlength, Nat.sub_self]
      rfl

end Trail

namespace Grammar

variable {g : Grammar} {root i j n : Nat} {cycle : List Production} {q : Production}

/-! ## The productions of a cycle -/

theorem head?_leftCycle? (hroot : g.IsNonTerminal root) (h : g.leftCycle? root = some cycle) :
    ∃ p, cycle.head? = some p ∧ p.left = root := by
  obtain ⟨trail, hway, -, rfl, hne⟩ := exists_closed_trail hroot h
  obtain ⟨p, rest, hcons⟩ := List.exists_cons_of_ne_nil hne
  have hhead := hway.head?_nodes
  rw [Trail.nodes, hcons] at hhead
  exact ⟨p, by rw [hcons]; rfl, Option.some.inj hhead⟩

/-- Each production leads to the left side of the next one, the last to that of the first. -/
theorem exists_next_of_leftCycle? (hroot : g.IsNonTerminal root)
    (h : g.leftCycle? root = some cycle) (hq : cycle[n]? = some q) :
    ∃ j, (cycle.map Production.left)[(n + 1) % cycle.length]? = some j ∧ g.IsNonTerminal j ∧
      g.productionTo? q.left j = some q := by
  obtain ⟨first, hfirst, hleft⟩ := head?_leftCycle? hroot h
  obtain ⟨trail, hway, htip, rfl, -⟩ := exists_closed_trail hroot h
  obtain ⟨j, hnext, hj, hproduction⟩ := hway.exists_productionTo? hq
  refine ⟨j, ?_, hj, hproduction⟩
  have hn := (List.getElem?_eq_some_iff.mp hq).1
  rcases Nat.lt_or_ge (n + 1) trail.steps.reverse.length with hlt | hle
  · rw [Nat.mod_eq_of_lt hlt, ← hnext, Trail.nodes, List.getElem?_append_left (by simpa using hlt)]
  · -- behind the last production comes the root, where the first one starts
    obtain heq : n + 1 = trail.steps.reverse.length := by omega
    rw [Trail.nodes, List.getElem?_append_right (by simpa using hle), heq, htip] at hnext
    rw [heq, Nat.mod_self, ← List.head?_eq_getElem?, List.head?_map, hfirst, Option.map_some, hleft]
    simpa using hnext

theorem isNonTerminal_left_leftCycle? (hroot : g.IsNonTerminal root)
    (h : g.leftCycle? root = some cycle) (hq : q ∈ cycle) : g.IsNonTerminal q.left :=
  g.isNonTerminal_of_mem_productions (mem_productions_of_mem_leftCycle? hroot h hq)

/-- No non-terminal is left twice. -/
theorem nodup_left_leftCycle? (hg : g.WellFormed) (h : g.leftCycle? root = some cycle) :
    (cycle.map Production.left).Nodup := by
  cases hp : g.productionTo? root root with
  | some p =>
    rw [leftCycle?, searchFrom, hp] at h
    obtain rfl := Option.some.inj h
    simp
  | none => exact (explore_eq_searchFrom hg hp _ (matches_start g root)).2 cycle h

/-! ## The chain by name -/

theorem map_fst_reportCycle (g : Grammar) (root : Nat) (cycle : List Production) :
    (g.reportCycle root cycle).chain.map Prod.fst = (cycle.map Production.left).map g.name := by
  simp [reportCycle, Function.comp_def]

/-- A chain that is not empty has the length that the kind says. -/
theorem length_of_kind {r : LeftRecursion} {entry : String × List String}
    (h : r.chain.head? = some entry) :
    (r.kind = .direct → r.chain.length = 1) ∧ (r.kind = .indirect → 2 ≤ r.chain.length) := by
  have hpos : 0 < r.chain.length := List.length_pos_iff.mpr fun hnil => by simp [hnil] at h
  rw [LeftRecursion.kind]
  split
  case isTrue hlen => exact ⟨fun _ => Nat.le_antisymm hlen hpos, fun hkind => absurd hkind (by decide)⟩
  case isFalse hlen =>
    refine ⟨fun hkind => absurd hkind (by decide), fun _ => ?_⟩
    omega

theorem head?_spell (g : Grammar) (right : List Nat) :
    (g.spell right).head? = right.head?.map g.name :=
  List.head?_map

/-- Among the alternatives by name, it is the same one that comes first with the next symbol. -/
theorem find?_map_spell {rules : List Rule} (h : ofRules rules = .ok g) (hj : g.IsNonTerminal j)
    (hq : g.productionTo? i j = some q) :
    ((g.alternatives i).map g.spell).find? (·.head? = some (g.name j)) =
      some (g.spell q.right) := by
  have hrep := representation_of_ofRules h
  obtain ⟨rfl, hhead, front, back, hsplit, hfront⟩ := productionTo?_eq_some_iff.mp hq
  refine List.find?_eq_some_iff_append.mpr ⟨by simp [head?_spell, hhead], front.map g.spell,
    back.map g.spell, by simp [hsplit], fun names hnames => ?_⟩
  obtain ⟨right, hr, rfl⟩ := List.mem_map.mp hnames
  have hmem : ⟨q.left, right⟩ ∈ g.productions := g.mem_productions.mpr (by simp [hsplit, hr])
  cases hright : right.head? with
  | none => simp [head?_spell, hright]
  | some k =>
    have hk := (hrep.right _ hmem k (List.mem_of_mem_head? hright)).2.2
    -- two symbols of one name would have one number
    have hne : g.name k ≠ g.name j := fun hname => by
      rw [hname, hrep.indexOf?_name j hj.1 hj.lt_symbolCount] at hk
      exact hfront right hr (hright.trans hk.symm)
    simp [head?_spell, hright, hne]

section Report

variable (hroot : g.IsNonTerminal root) (hcycle : g.leftCycle? root = some cycle)
include hroot hcycle

theorem head?_reportCycle :
    ∃ right, (g.reportCycle root cycle).chain.head? = some (g.name root, right) := by
  obtain ⟨first, hfirst, hleft⟩ := head?_leftCycle? hroot hcycle
  refine ⟨g.spell first.right, ?_⟩
  rw [reportCycle, List.head?_map, hfirst, Option.map_some, hleft]

theorem nodup_reportCycle (hg : g.WellFormed) :
    ((g.reportCycle root cycle).chain.map Prod.fst).Nodup := by
  rw [map_fst_reportCycle]
  refine List.Nodup.map_on (fun i hi j hj hname => ?_) (nodup_left_leftCycle? hg hcycle)
  obtain ⟨p, hp, rfl⟩ := List.mem_map.mp hi
  obtain ⟨q, hq, rfl⟩ := List.mem_map.mp hj
  have hin := isNonTerminal_left_leftCycle? hroot hcycle hp
  have hjn := isNonTerminal_left_leftCycle? hroot hcycle hq
  exact hg.name_injective hin.1 hin.lt_symbolCount hjn.1 hjn.lt_symbolCount hname

theorem exists_next_of_reportCycle {rules : List Rule} (h : ofRules rules = .ok g) {left : String}
    {right : List String} (hn : (g.reportCycle root cycle).chain[n]? = some (left, right)) :
    ∃ i next, g.IsNonTerminal i ∧ g.name i = left ∧
      ((g.reportCycle root cycle).chain.map
        Prod.fst)[(n + 1) % (g.reportCycle root cycle).chain.length]? = some next ∧
      ((g.alternatives i).map g.spell).find? (·.head? = some next) = some right := by
  have hlength : (g.reportCycle root cycle).chain.length = cycle.length := List.length_map _
  rw [reportCycle, List.getElem?_map, Option.map_eq_some_iff] at hn
  obtain ⟨q, hq, heq⟩ := hn
  obtain ⟨rfl, rfl⟩ := Prod.mk.inj heq
  obtain ⟨j, hnext, hj, hproduction⟩ := exists_next_of_leftCycle? hroot hcycle hq
  refine ⟨q.left, g.name j, isNonTerminal_left_leftCycle? hroot hcycle (List.mem_of_getElem? hq),
    rfl, ?_, find?_map_spell h hj hproduction⟩
  rw [map_fst_reportCycle, hlength, List.getElem?_map, hnext]
  rfl

end Report

/-- The search comes to an end, and reports what `leftRecursion?` does. The alternatives that it
walks back over are found at their places, and none is dropped from the chain. The chain starts
with a production of the non-terminal that is reported, and no non-terminal is in it twice. Each of
its productions is the first alternative of its left side that starts with the left side of the
next one, and the last with that of the first. There is one production if the report is direct, and
there are two at least if it is not. -/
theorem leftRecursion?_chain {rules : List Rule} (h : ofRules rules = .ok g) :
    g.findLeftRecursion = some (g.leftRecursion?.map fun r => (r.kind, r)) ∧
    ∀ r, g.leftRecursion? = some r →
      (∃ root links, g.IsNonTerminal root ∧ g.name root = r.nonTerminal ∧
        g.linkedCycle? root = some (some (r.kind, links)) ∧
        links.mapM g.spellLink? = some (r.chain.map some)) ∧
      (∃ right, r.production? = some right ∧ r.chain.head? = some (r.nonTerminal, right)) ∧
      (r.chain.map Prod.fst).Nodup ∧
      (r.kind = .direct → r.chain.length = 1) ∧ (r.kind = .indirect → 2 ≤ r.chain.length) ∧
      ∀ k left right, r.chain[k]? = some (left, right) → ∃ i next,
        g.IsNonTerminal i ∧ g.name i = left ∧
        (r.chain.map Prod.fst)[(k + 1) % r.chain.length]? = some next ∧
        ((g.alternatives i).map g.spell).find? (·.head? = some next) = some right := by
  have hg := wellFormed_of_ofRules h
  refine ⟨findLeftRecursion_eq hg, fun r hr => ?_⟩
  obtain ⟨root, cycle, hroot, hcycle, rfl, -⟩ := exists_leftCycle?_of_leftRecursion? hr
  obtain ⟨first, hfirst⟩ := head?_reportCycle hroot hcycle
  refine ⟨⟨root, _, hroot, rfl, ?_, mapM_spellLink? hg hroot hcycle⟩, ⟨first, ?_, hfirst⟩,
    nodup_reportCycle hroot hcycle hg, (length_of_kind hfirst).1, (length_of_kind hfirst).2,
    fun k left right hk => exists_next_of_reportCycle hroot hcycle h hk⟩
  · rw [linkedCycle?_eq hg hroot, hcycle]
    rfl
  · rw [LeftRecursion.production?, hfirst]
    rfl

/-- Rules with a cycle of three, and a non-terminal `B` that lies beside it. -/
def detourRules : List Rule :=
  [⟨"S", [["A", "a"], ["d"]]⟩, ⟨"A", [["B"], ["C", "b"]]⟩, ⟨"B", [["A"]]⟩,
    ⟨"C", [["c"], ["B"], ["S", "S"]]⟩]

/-- The grammar of `detourRules`. -/
def detourGrammar : Grammar :=
  ⟨[⟨"S", [[3, 6], [7]]⟩, ⟨"A", [[4], [5, 8]]⟩, ⟨"B", [[3]]⟩, ⟨"C", [[9], [4], [2, 2]]⟩],
    ["a", "d", "b", "c"]⟩

/-- The way from `S` over `A` and `C` back to `S`. -/
def detourReport : LeftRecursion :=
  ⟨"S", [("S", ["A", "a"]), ("A", ["C", "b"]), ("C", ["S", "S"])]⟩

/-- The chain leads over `A` and `C`, and the last production is the first from `C` to `S`. -/
theorem leftRecursion?_chain_detour : ofRules detourRules = .ok detourGrammar ∧
    detourGrammar.findLeftRecursion = some (some (.indirect, detourReport)) ∧
    (∃ root links, detourGrammar.linkedCycle? root = some (some (.indirect, links)) ∧
      links.mapM detourGrammar.spellLink? = some (detourReport.chain.map some)) ∧
    detourReport.production? = some ["A", "a"] ∧ (detourReport.chain.map Prod.fst).Nodup ∧
    ∃ i, detourGrammar.name i = "C" ∧ ((detourGrammar.alternatives i).map
      detourGrammar.spell).find? (·.head? = some "S") = some ["S", "S"] := by
  have hok : ofRules detourRules = .ok detourGrammar := by decide +kernel
  have hreport : detourGrammar.leftRecursion? = some detourReport := by cbv
  obtain ⟨hsearch, hchain⟩ := leftRecursion?_chain hok
  obtain ⟨⟨root, links, -, -, hlinks, hspell⟩, -, hnodup, -, -, hnext⟩ := hchain _ hreport
  obtain ⟨i, next, -, hname, hmod, hfind⟩ := hnext 2 "C" ["S", "S"] rfl
  obtain rfl : "S" = next := Option.some.inj hmod
  refine ⟨hok, ?_, ⟨root, links, hlinks, hspell⟩, rfl, hnodup, i, hname, hfind⟩
  rw [hsearch, hreport]
  rfl

end Grammar

end Lookahead
