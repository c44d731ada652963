import Lookahead.Proofs.Grammar.FreshRule
import Lookahead.Proofs.LeftCorner.LeftRecursive

/-!
# A new start symbol

A rule in front of all others, with the old start symbol alone on its right, gives a grammar a start
symbol that occurs nowhere else. Every other symbol moves on by one (`renumber_eq_succ`), and the
rules before are a closed part. What the new start symbol derives is itself, or derived from the old
one (`derives_newStart`). So what some non-terminal derives, an old one does, and the start symbol
only what the old start symbol does (`exists_of_derives_newStart`).

The end mark is put next to the old start symbol no longer. It comes there by the new rule, as it
stands at the end (`follows_newStart_iff`).

The search for left recursion starts with the new start symbol. Whatever cycles there are behind it,
none leads back to it (`not_transGen_newStart`), and the search goes on as before.
-/

namespace Lookahead

open Relation
open Grammar (start epsilon endMark)
open Rules (number leftSides alternativesFor rightNames terminalNames)

namespace Rules

variable {rules : List Rule} {z left name : String}

theorem number_cons_self (name : String) (names : List String) :
    number (name :: names) name = start := by
  rw [number, List.idxOf?_cons, if_pos (beq_self_eq_true name)]

theorem number_cons_of_ne {names : List String} {other : String} (hne : other ≠ name)
    (h : name ∈ names) : number (other :: names) name = number names name + 1 := by
  obtain ⟨k, hk⟩ := exists_idxOf?_eq_some h
  rw [number, number, List.idxOf?_cons, if_neg (by simpa using hne), hk]
  rfl

namespace Unused

variable (h : Unused rules z) (alternatives : List (List String))
include h

theorem leftSides_cons : leftSides (⟨z, alternatives⟩ :: rules) = z :: leftSides rules := by
  have hkeep : (rules.map (·.left)).filter (fun left => !left == z) = rules.map (·.left) :=
    List.filter_eq_self.mpr <| List.forall_mem_map.mpr fun r hr => by simpa using (h r hr).1
  rw [leftSides, List.map_cons, List.eraseDups_cons, hkeep, leftSides]

theorem alternativesFor_cons_of_mem (hleft : left ∈ leftSides rules) :
    alternativesFor (⟨z, alternatives⟩ :: rules) left = alternativesFor rules left := by
  have hne : z ≠ left := fun heq => h.not_mem_leftSides (heq ▸ hleft)
  rw [alternativesFor, alternativesFor, List.filter_cons_of_neg (by simpa using hne)]

theorem alternativesFor_cons_self :
    alternativesFor (⟨z, alternatives⟩ :: rules) z = alternatives := by
  have hnil := alternativesFor_eq_nil h.not_mem_leftSides
  rw [alternativesFor] at hnil ⊢
  rw [List.filter_cons_of_pos (by simp), List.flatMap_cons, hnil, List.append_nil]

theorem extends_cons : Extends rules (⟨z, alternatives⟩ :: rules) where
  mem_leftSides left hleft := by
    rw [h.leftSides_cons]
    exact List.mem_cons_of_mem _ hleft
  mem_alternativesFor left alternative halt := by
    obtain ⟨r, hr, hleft, halt⟩ := mem_alternativesFor.mp halt
    exact mem_alternativesFor.mpr ⟨r, List.mem_cons_of_mem _ hr, hleft, halt⟩
  not_mem_leftSides name hright hleft := by
    rw [h.leftSides_cons, List.mem_cons, not_or]
    refine ⟨?_, hleft⟩
    rintro rfl
    exact h.not_mem_rightNames hright

theorem rightNames_cons : rightNames (⟨z, alternatives⟩ :: rules) =
    alternatives.flatten ++ rightNames rules := by
  rw [rightNames, h.leftSides_cons, List.flatMap_cons, h.alternativesFor_cons_self, rightNames]
  refine congrArg _ (List.flatMap_congr fun left hleft => ?_)
  rw [h.alternativesFor_cons_of_mem alternatives hleft]

/-- A rule that uses left sides only brings in no terminals. -/
theorem terminalNames_cons (hright : ∀ name ∈ alternatives.flatten, name ∈ leftSides rules) :
    terminalNames (⟨z, alternatives⟩ :: rules) = terminalNames rules := by
  have hnone : alternatives.flatten.filter (fun name =>
      decide (name ∉ leftSides (⟨z, alternatives⟩ :: rules) ∧ name ≠ epsilonName)) = [] :=
    List.filter_eq_nil_iff.mpr fun name hname => by
      simp [h.leftSides_cons, hright name hname]
  rw [terminalNames, h.rightNames_cons, List.filter_append, hnone, List.nil_append, terminalNames]
  refine congrArg _ (List.filter_congr fun name hname => decide_eq_decide.mpr ?_)
  have hne : name ≠ z := by
    rintro rfl
    exact h.not_mem_rightNames hname
  rw [h.leftSides_cons, List.mem_cons, or_iff_right hne]

end Unused

end Rules

/-- The name occurs in the report. -/
def LeftRecursion.Mentions (r : LeftRecursion) (name : String) : Prop :=
  r.nonTerminal = name ∨ ∃ entry ∈ r.chain, entry.1 = name ∨ name ∈ entry.2

namespace Grammar

variable {g g' : Grammar} {rules : List Rule} {z s : String} {i i' k k' : Nat} {u' : List Nat}

section

variable (hfresh : Rules.Unused rules z) (hs : rules.head?.map (·.left) = some s)
  (h : ofRules rules = .ok g) (h' : ofRules (⟨z, [[s]]⟩ :: rules) = .ok g')
include hfresh hs h h'

/-! ## Symbols -/

omit h h' in
theorem terminalNames_newStart :
    terminalNames (⟨z, [[s]]⟩ :: rules) = terminalNames rules := by
  refine hfresh.terminalNames_cons [[s]] fun name hname => ?_
  obtain rfl : name = s := by simpa using hname
  obtain ⟨r, hr, rfl⟩ := Option.map_eq_some_iff.mp hs
  exact Rules.mem_leftSides.mpr ⟨r, List.mem_of_head? hr, rfl⟩

theorem names_newStart : g'.names = z :: g.names := by
  rw [names_of_ofRules h, names_of_ofRules h', terminalNames_newStart hfresh hs,
    hfresh.leftSides_cons, List.cons_append]

/-- The old symbols keep their kinds and names, and there is one more. -/
theorem labels_newStart : g'.labels.Perm (.nonTerminal z :: g.labels) := by
  rw [labels_of_ofRules h, labels_of_ofRules h', terminalNames_newStart hfresh hs,
    hfresh.leftSides_cons]
  exact ((List.Perm.swap _ _ _).cons _).trans (.swap _ _ _)

theorem name_newStart : g'.name start = z := by
  have := name_number (g := g') (Or.inl (names_newStart hfresh hs h h' ▸ List.mem_cons_self))
  rwa [names_newStart hfresh hs h h', Rules.number_cons_self] at this

/-- The other symbols move on by one. -/
theorem renumber_eq_succ (hi : start ≤ i) (hlt : i < g.symbolCount) :
    renumber g g' i = i + 1 := by
  have hmem := name_mem_names hi hlt
  have hnodup := (wellFormed_of_ofRules h').nodup_names
  rw [names_newStart hfresh hs h h', List.nodup_cons] at hnodup
  have hne : z ≠ g.name i := fun heq => hnodup.1 (heq ▸ hmem)
  rw [renumber_of_start_le hi, names_newStart hfresh hs h h', Rules.number_cons_of_ne hne hmem,
    number_name h hi hlt]

theorem renumber_ne_start (hlt : i < g.symbolCount) : renumber g g' i ≠ start := by
  rcases Nat.lt_or_ge i start with hi | hi
  · rw [renumber, if_pos hi]
    exact Nat.ne_of_lt hi
  · rw [renumber_eq_succ hfresh hs h h' hi hlt]
    exact (Nat.ne_of_lt (Nat.lt_succ_of_le hi)).symm

theorem nonTerminalIndexes_newStart :
    g'.nonTerminalIndexes = start :: g.nonTerminalIndexes.map (renumber g g') := by
  have hlength : g'.nonTerminals.length = g.nonTerminals.length + 1 := by
    rw [length_nonTerminals_of_ofRules h, length_nonTerminals_of_ofRules h',
      hfresh.leftSides_cons, List.length_cons]
  have hsucc : g.nonTerminalIndexes.map (renumber g g') = g.nonTerminalIndexes.map (1 + ·) :=
    List.map_congr_left fun i hi => by
      have hn := g.mem_nonTerminalIndexes.mp hi
      rw [renumber_eq_succ hfresh hs h h' hn.1 hn.lt_symbolCount, Nat.add_comm]
  rw [hsucc, nonTerminalIndexes, nonTerminalIndexes, hlength, List.range'_succ,
    List.map_add_range', Nat.add_comm start 1]

/-- A non-terminal is the new start symbol or an old one. -/
theorem isNonTerminal_newStart_iff {a' : Nat} : g'.IsNonTerminal a' ↔
    a' = start ∨ ∃ a, g.IsNonTerminal a ∧ renumber g g' a = a' := by
  rw [← mem_nonTerminalIndexes, nonTerminalIndexes_newStart hfresh hs h h', List.mem_cons,
    List.mem_map]
  simp only [mem_nonTerminalIndexes]

omit hs in
theorem closedPart_newStart : ClosedPart g g' (renumber g g') :=
  closedPart_of_extends (hfresh.extends_cons [[s]])
    (fun _ => hfresh.alternativesFor_cons_of_mem [[s]]) h h'

theorem alternatives_newStart : g'.alternatives start = [[renumber g g' start]] := by
  have hleft : z ∈ leftSides (⟨z, [[s]]⟩ :: rules) := Rules.mem_leftSides.mpr ⟨_, .head _, rfl⟩
  have hname : g.name start = s := Option.some.inj ((name_start_of_ofRules h).symm.trans hs)
  have halt := alternatives_number h' hleft
  rw [hfresh.alternativesFor_cons_self,
    names_newStart hfresh hs h h', Rules.number_cons_self, ← names_newStart hfresh hs h h'] at halt
  rw [halt, renumber_of_start_le (Nat.le_refl _), hname]
  rfl

/-! ## Derivations -/

theorem derives_newStart (hd : g'.Derives [start] u') :
    u' = [start] ∨ g'.Derives [renumber g g' start] u' := by
  cases hd with
  | refl => exact Or.inl rfl
  | head first rest =>
    obtain ⟨p, hp, hleft, rfl⟩ := exists_production_of_expands_singleton first
    rw [g'.mem_productions, hleft, alternatives_newStart hfresh hs h h', List.mem_singleton] at hp
    have hold := (closedPart_newStart hfresh h h').isNonTerminal start
      (wellFormed_of_ofRules h).isNonTerminal_start
    rw [hp, unmarked_cons_of_ne hold.ne_epsilon, unmarked_nil] at rest
    exact Or.inr rest

theorem derives_old_start : g'.Derives [start] [renumber g g' start] := by
  have hp : (⟨start, [renumber g g' start]⟩ : Production) ∈ g'.productions := by
    rw [mem_productions, alternatives_newStart hfresh hs h h']
    exact List.mem_cons_self
  have hold := (closedPart_newStart hfresh h h').isNonTerminal start
    (wellFormed_of_ofRules h).isNonTerminal_start
  have := derives_nonTerminal hp
  rwa [unmarked_cons_of_ne hold.ne_epsilon, unmarked_nil] at this

/-- What a non-terminal derives, but for the new start symbol itself, an old one derives, and the
old start symbol, if the new one does. -/
theorem exists_of_derives_newStart {a' : Nat} (ha : g'.IsNonTerminal a') (hd : g'.Derives [a'] u')
    (hne : u' ≠ [start]) : ∃ a u, g.IsNonTerminal a ∧ (a' = start → a = start) ∧
      g.Derives [a] u ∧ u' = u.map (renumber g g') := by
  have hpart := closedPart_newStart hfresh h h'
  have hg := wellFormed_of_ofRules h
  have hin {a : Nat} (ha : g.IsNonTerminal a) : g.InUse [a] := by
    simpa [InUse] using ha.lt_symbolCount
  rcases (isNonTerminal_newStart_iff hfresh hs h h').mp ha with rfl | ⟨a, hold, rfl⟩
  · have hold := (derives_newStart hfresh hs h h' hd).resolve_left hne
    obtain ⟨u, hu, rfl⟩ := hpart.exists_of_derives hg (hin hg.isNonTerminal_start) hold
    exact ⟨start, u, hg.isNonTerminal_start, fun _ => rfl, hu, rfl⟩
  · obtain ⟨u, hu, rfl⟩ := hpart.exists_of_derives hg (hin hold) hd
    exact ⟨a, u, hold,
      fun heq => absurd heq (renumber_ne_start hfresh hs h h' hold.lt_symbolCount), hu, rfl⟩

/-! ## What comes first, and what comes next -/

/-- The two start symbols begin with the same. -/
theorem get_first_newStart : g'.first.get start = g'.first.get (renumber g g' start) := by
  have hg' := wellFormed_of_ofRules h'
  have hold := (closedPart_newStart hfresh h h').isNonTerminal start
    (wellFormed_of_ofRules h).isNonTerminal_start
  refine IndexSet.ext fun k => ?_
  rw [mem_get_first_iff_begins hg' hg'.isNonTerminal_start, mem_get_first_iff_begins hg' hold]
  constructor
  · rintro (⟨rfl, hd⟩ | ⟨hne, hn, rest, hd⟩)
    · have hd := (derives_newStart hfresh hs h h' hd).resolve_left (by simp)
      exact Or.inl ⟨rfl, hd⟩
    · have hnew : k :: rest ≠ [start] := fun heq => by
        obtain ⟨rfl, -⟩ := List.cons.inj heq
        exact hn hg'.isNonTerminal_start
      exact Or.inr ⟨hne, hn, rest, (derives_newStart hfresh hs h h' hd).resolve_left hnew⟩
  · exact fun hk => hk.of_derives (derives_old_start hfresh hs h h')

/-- Next to an old non-terminal comes what came there before. -/
theorem follows_newStart_iff {k' : Nat} (hi : g.IsNonTerminal i) :
    g'.Follows (renumber g g' i) k' ↔ ∃ k, g.Follows i k ∧ renumber g g' k = k' := by
  have hpart := closedPart_newStart hfresh h h'
  have hg := wellFormed_of_ofRules h
  have hg' := wellFormed_of_ofRules h'
  have hinUse {a : Nat} {u : List Nat} (ha : g.IsNonTerminal a) (hd : g.Derives [a] u) :
      g.InUse u :=
    InUse.of_derives hg (by simpa [InUse] using ha.lt_symbolCount) hd
  have hnew {x' y' : List Nat} : x' ++ renumber g g' i :: y' ≠ [start] := fun heq => by
    have hmem : renumber g g' i ∈ [start] := heq ▸ by simp
    exact renumber_ne_start hfresh hs h h' hi.lt_symbolCount (List.mem_singleton.mp hmem)
  constructor
  · rintro (⟨rfl, x', hd⟩ | ⟨hne, ht, a', x', y', ha', hd⟩)
    · obtain ⟨a, u, ha, hstart, hu, heq⟩ :=
        exists_of_derives_newStart hfresh hs h h' hg'.isNonTerminal_start hd hnew
      obtain rfl := hstart rfl
      obtain ⟨x, y, rfl, hy⟩ := hpart.exists_eq_append_cons (hinUse ha hu) hi.lt_symbolCount heq
      obtain rfl := List.map_eq_nil_iff.mp hy.symm
      exact ⟨endMark, follows_endMark.mpr ⟨x, hu⟩, rfl⟩
    · obtain ⟨a, u, ha, -, hu, heq⟩ := exists_of_derives_newStart hfresh hs h h' ha' hd hnew
      obtain ⟨x, y, rfl, hy⟩ := hpart.exists_eq_append_cons (hinUse ha hu) hi.lt_symbolCount heq
      obtain ⟨k, y, rfl, rfl, -⟩ := List.map_eq_cons_iff.mp hy.symm
      have hk : g.IsTerminal k := (hpart.isTerminal_iff (hinUse ha hu k (by simp))).mp ht
      exact ⟨k, (follows_of_ne hk.ne_endMark).mpr ⟨hk, a, x, y, ha, hu⟩, rfl⟩
  · rintro ⟨k, hk, rfl⟩
    by_cases hend : k = endMark
    · subst hend
      obtain ⟨x, hd⟩ := follows_endMark.mp hk
      have hd := hpart.derives hg hd
      rw [List.map_append, List.map_singleton, List.map_singleton] at hd
      exact follows_endMark.mpr ⟨_, (derives_old_start hfresh hs h h').trans hd⟩
    · exact hpart.follows hg hk (Or.inl hend)

/-- Nothing but the end comes next to the new start symbol. -/
theorem get_follow_newStart : (g'.follow g'.first).get start = .single endMark := by
  have hg' := wellFormed_of_ofRules h'
  refine IndexSet.ext fun k => ?_
  rw [mem_follow_iff_follows hg' hg'.isNonTerminal_start, IndexSet.mem_single]
  constructor
  · rintro (⟨rfl, -⟩ | ⟨-, -, a', x', y', ha', hd⟩)
    · rfl
    · -- the new start symbol would be the image of an old symbol
      have hne : x' ++ start :: k :: y' ≠ [start] := fun heq => by
        simpa [← Nat.add_assoc] using congrArg List.length heq
      obtain ⟨a, u, ha, -, hu, heq⟩ := exists_of_derives_newStart hfresh hs h h' ha' hd hne
      have hmem : start ∈ u.map (renumber g g') := heq ▸ by simp
      obtain ⟨i, hi, hstart⟩ := List.mem_map.mp hmem
      have hin : g.InUse u := InUse.of_derives (wellFormed_of_ofRules h)
        (by simpa [InUse] using ha.lt_symbolCount) hu
      exact absurd hstart (renumber_ne_start hfresh hs h h' (hin i hi))
  · rintro rfl
    exact follows_endMark.mpr ⟨[], .refl _⟩

/-- By name, the sets of the old symbols are the same. -/
theorem sets_of_newStart (hi : SameLabel g g' i i') :
    g'.labelSet (g'.first.get i') = g.labelSet (g.first.get i) ∧
    (g.IsNonTerminal i → g'.labelSet ((g'.follow g'.first).get i') =
      g.labelSet ((g.follow g.first).get i)) := by
  have hext := hfresh.extends_cons [[s]]
  obtain ⟨hlt, rfl⟩ := (sameLabel_iff hext h h').mp hi
  have hpart := closedPart_newStart hfresh h h'
  refine ⟨labelSet_first_eq hext (fun _ => hfresh.alternativesFor_cons_of_mem [[s]]) h h' hlt,
    fun hn => ?_⟩
  have hmem (k' : Nat) : k' ∈ (g'.follow g'.first).get (renumber g g' i) ↔
      ∃ k ∈ (g.follow g.first).get i, renumber g g' k = k' := by
    rw [mem_follow_iff_follows (wellFormed_of_ofRules h') (hpart.isNonTerminal i hn),
      follows_newStart_iff hfresh hs h h' hn]
    simp only [mem_follow_iff_follows (wellFormed_of_ofRules h) hn]
  refine Set.Subset.antisymm ?_ (labelSet_subset hext h h' (g.within_follow.lt i) fun k hk =>
    (hmem _).mpr ⟨k, hk, rfl⟩)
  rintro _ ⟨k', hk', rfl⟩
  obtain ⟨k, hk, rfl⟩ := (hmem k').mp hk'
  exact ⟨k, hk, (label?_renumber hext h h' (g.within_follow.lt i k hk)).symm⟩

/-- The new start symbol begins with what the symbol begins with that is on the right of its
rule. -/
theorem get_first_start_of_label? (hi : g'.label? i' = some (.nonTerminal s)) :
    g'.first.get start = g'.first.get i' := by
  have hg := wellFormed_of_ofRules h
  have hname : g.name start = s := Option.some.inj ((name_start_of_ofRules h).symm.trans hs)
  have hlabel : g.label? start = some (.nonTerminal s) :=
    hname ▸ label?_of_isNonTerminal hg.isNonTerminal_start
  obtain ⟨-, rfl⟩ := (sameLabel_iff (hfresh.extends_cons [[s]]) h h').mp ⟨_, hlabel, hi⟩
  exact get_first_newStart hfresh hs h h'

/-! ## Left recursion -/

/-- Whatever the new start symbol leads to, nothing leads back to it. -/
theorem not_transGen_newStart : ¬TransGen g'.LeftEdge start start := by
  have hg := wellFormed_of_ofRules h
  intro hcycle
  obtain ⟨k', hedge, hway⟩ := TransGen.head'_iff.mp hcycle
  obtain rfl : renumber g g' start = k' := by
    obtain ⟨right, hright, hhead⟩ := g'.mem_leftCorners.mp hedge.2
    rw [alternatives_newStart hfresh hs h h', List.mem_singleton] at hright
    subst hright
    exact Option.some.inj hhead
  have hne := renumber_ne_start hfresh hs h h' hg.isNonTerminal_start.lt_symbolCount
  have hback := (reflTransGen_iff_eq_or_transGen.mp hway).resolve_left hne.symm
  obtain ⟨k, hk, heq⟩ := (closedPart_newStart hfresh h h').exists_of_transGen hg
    hg.isNonTerminal_start hback
  obtain ⟨j, -, hlast⟩ := TransGen.tail'_iff.mp hk
  exact renumber_ne_start hfresh hs h h' hlast.1.lt_symbolCount heq.symm

theorem leftRecursion?_newStart : g'.leftRecursion? = g.leftRecursion? := by
  have hnone : g'.leftCycle? start = none := by
    rw [← Option.not_isSome_iff_eq_none,
      leftCycle?_isSome_iff (wellFormed_of_ofRules h').isNonTerminal_start]
    exact not_transGen_newStart hfresh hs h h'
  rw [leftRecursion?, nonTerminalIndexes_newStart hfresh hs h h', List.findSome?_cons, hnone,
    Option.map_none]
  exact (closedPart_newStart hfresh h h').findSome?_report (wellFormed_of_ofRules h)
    fun _ => name_renumber (hfresh.extends_cons [[s]]) h h'

theorem findLeftRecursion_newStart : g'.findLeftRecursion = g.findLeftRecursion := by
  rw [findLeftRecursion_eq (wellFormed_of_ofRules h),
    findLeftRecursion_eq (wellFormed_of_ofRules h'),
    leftRecursion?_newStart hfresh hs h h']

/-! ## Warnings -/

theorem warnings_newStart : ∃ t t', (RuleBuilder.ofRules rules).build = .ok (t, start) ∧
    (RuleBuilder.ofRules (⟨z, [[s]]⟩ :: rules)).build = .ok (t', start) ∧
    t.Holds g ∧ t'.Holds g' ∧ t'.warnings = t.warnings := by
  obtain ⟨t, hbuild, ht⟩ := RuleBuilder.build_ofRules h
  obtain ⟨t', hbuild', ht'⟩ := RuleBuilder.build_ofRules h'
  refine ⟨t, t', hbuild, hbuild', ht, ht', ?_⟩
  rw [ht.warnings, ht'.warnings, suspects, suspects, (ofRules_eq_ok h).2.2, (ofRules_eq_ok h').2.2,
    terminalNames_newStart hfresh hs]

end

/-- A report holds names of the rules only. -/
theorem not_mentions_of_leftRecursion? (h : ofRules rules = .ok g) (hfresh : Rules.Unused rules z)
    {r : LeftRecursion} (hr : g.leftRecursion? = some r) : ¬r.Mentions z := by
  obtain ⟨i, cycle, hi, hcycle, rfl, -⟩ := exists_leftCycle?_of_leftRecursion? hr
  rintro (rfl | ⟨entry, hentry, hz⟩)
  · exact hfresh.not_mem_leftSides (name_mem_leftSides h hi)
  · obtain ⟨p, hp, rfl⟩ := List.mem_map.mp hentry
    obtain ⟨left, hleft, alternative, halt, rfl⟩ :=
      (mem_productions_of_ofRules h).mp (mem_productions_of_mem_leftCycle? hi hcycle hp)
    have hright (name : String) (hname : name ∈ alternative) : name ∈ rightNames rules :=
      Rules.mem_rightNames_of_mem_alternativesFor hleft halt hname
    have hspell : g.spell (alternative.map (number g.names)) = alternative :=
      spell_map_number fun name hname =>
        names_of_ofRules h ▸ Rules.mem_names_or_eq_of_mem_rightNames (hright name hname)
    have hname : g.name (number g.names left) = left :=
      name_number (Or.inl (names_of_ofRules h ▸ List.mem_append_left _ hleft))
    rw [hspell, hname] at hz
    rcases hz with rfl | hz
    · exact hfresh.not_mem_leftSides hleft
    · exact hfresh.not_mem_rightNames (hright z hz)

/-- With a rule in front that leads from a name that is not in use to the first left side, there is
a grammar again. It has all symbols of the grammar without that rule, by kind and name, and the new
start symbol. By name, FIRST of every old symbol and FOLLOW of every old non-terminal are the same.
FIRST of the new start symbol is that of the old one, and FOLLOW holds the end mark only. The
warnings are the same, and so is what the search for left recursion comes to, which does not mention
the new start symbol. -/
theorem sets_and_recursion_of_newStart (hfresh : Rules.Unused rules z)
    (hs : rules.head?.map (·.left) = some s) (h : ofRules rules = .ok g) :
    ∃ g', ofRules (⟨z, [[s]]⟩ :: rules) = .ok g' ∧
      g'.labels.Perm (.nonTerminal z :: g.labels) ∧
      (∀ i i', SameLabel g g' i i' →
        g'.labelSet (g'.first.get i') = g.labelSet (g.first.get i) ∧
        (g.IsNonTerminal i → g'.labelSet ((g'.follow g'.first).get i') =
          g.labelSet ((g.follow g.first).get i))) ∧
      g'.label? start = some (.nonTerminal z) ∧
      (∀ i', g'.label? i' = some (.nonTerminal s) → g'.first.get start = g'.first.get i') ∧
      (g'.follow g'.first).get start = .single endMark ∧
      (∃ t t', (RuleBuilder.ofRules rules).build = .ok (t, start) ∧
        (RuleBuilder.ofRules (⟨z, [[s]]⟩ :: rules)).build = .ok (t', start) ∧
        t.Holds g ∧ t'.Holds g' ∧ t'.warnings = t.warnings) ∧
      ∃ report?, g.findLeftRecursion = some report? ∧ g'.findLeftRecursion = some report? ∧
        ∀ kind recursion, report? = some (kind, recursion) → ¬recursion.Mentions z := by
  obtain ⟨g', h'⟩ : ∃ g', ofRules (⟨z, [[s]]⟩ :: rules) = .ok g' :=
    exists_ofRules_eq_ok_iff.mpr (List.cons_ne_nil _ _)
  have hlabel := label?_of_isNonTerminal (wellFormed_of_ofRules h').isNonTerminal_start
  rw [name_newStart hfresh hs h h'] at hlabel
  have hsearch := findLeftRecursion_eq (wellFormed_of_ofRules h)
  refine ⟨g', h', labels_newStart hfresh hs h h', fun i i' => sets_of_newStart hfresh hs h h',
    hlabel, fun i' => get_first_start_of_label? hfresh hs h h', get_follow_newStart hfresh hs h h',
    warnings_newStart hfresh hs h h', _, hsearch,
    (findLeftRecursion_newStart hfresh hs h h').trans hsearch, fun kind recursion hreport => ?_⟩
  obtain ⟨r, hr, heq⟩ := Option.map_eq_some_iff.mp hreport
  obtain ⟨-, rfl⟩ := Prod.mk.inj heq
  exact not_mentions_of_leftRecursion? h hfresh hr

/-- The grammar of `closedRules` behind a new start symbol `Z`. -/
def closedGrammarBehind : Grammar :=
  ⟨[⟨"Z", [[3]]⟩, ⟨"S", [[4, 5], []]⟩, ⟨"A", [[6, 3]]⟩], ["b", "a"]⟩

/-- The end still comes next to `S`, which is no longer the start symbol, and `b` next to it. Where
the old start symbol leads to a cycle, `Z` does, and the report stays what it was. -/
theorem sets_and_recursion_of_newStart_cycle :
    (ofRules (⟨"Z", [["S"]]⟩ :: closedRules) = .ok closedGrammarBehind ∧
      closedGrammarBehind.labelSet ((closedGrammarBehind.follow closedGrammarBehind.first).get 3) =
        closedGrammar.labelSet ((closedGrammar.follow closedGrammar.first).get 2) ∧
      closedGrammarBehind.first.get 2 = closedGrammarBehind.first.get 3 ∧
      (closedGrammarBehind.follow closedGrammarBehind.first).get 2 = .single endMark) ∧
    ∃ g', ofRules (⟨"Z", [["S"]]⟩ :: cycleRules) = .ok g' ∧
      g'.findLeftRecursion = some (some (.indirect, cycleReport)) ∧ ¬cycleReport.Mentions "Z" := by
  have hclosed : ofRules closedRules = .ok closedGrammar := by decide +kernel
  have hok : ofRules (⟨"Z", [["S"]]⟩ :: closedRules) = .ok closedGrammarBehind := by decide +kernel
  have hcycle : ofRules cycleRules = .ok cycleGrammar := by decide +kernel
  refine ⟨?_, ?_⟩
  · obtain ⟨g', h', -, hsets, -, hfirst, hfollow, -⟩ :=
      sets_and_recursion_of_newStart (z := "Z") (by decide) rfl hclosed
    obtain rfl : closedGrammarBehind = g' := Except.ok.inj (hok.symm.trans h')
    exact ⟨hok, (hsets 2 3 (by decide +kernel)).2 (by decide), hfirst 3 rfl, hfollow⟩
  · obtain ⟨g', h', -, -, -, -, -, -, report?, hsearch, hsearch', hmentions⟩ :=
      sets_and_recursion_of_newStart (z := "Z") (by decide) rfl hcycle
    rw [findLeftRecursion_eq (wellFormed_of_ofRules hcycle), leftRecursion?_cycleGrammar] at hsearch
    obtain rfl := Option.some.inj hsearch
    exact ⟨g', h', hsearch', hmentions _ _ rfl⟩

end Grammar

end Lookahead
