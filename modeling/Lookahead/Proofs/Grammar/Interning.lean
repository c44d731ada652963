import Lookahead.Grammar.Interning
import Lookahead.Proofs.Grammar.WellFormed

/-!
# Interning makes the grammar of the rules

A table of symbols under construction is at every moment the table of some grammar
(`SymbolTable.Holds`) : after the left sides, of one without productions, and after some
of the right sides, of one whose last non-terminals are still without. Each step adds a
non-terminal, a terminal or productions to that grammar (`Holds.addNonTerminal`,
`Holds.addTerminal`, `Holds.setProductions`).

The terminals of a table are the first occurrences of what has been read
(`discovered`), which is the invariant of reading names (`Holds.intern`). A name keeps its number
when more names are read (`number_discovered`), so the numbers that a right side got
on the way are those of the finished table.

* `RuleBuilder.collected_ofRules` : the collected rules, from one added rule to the next.
* `RuleBuilder.build_ofRules` : the finished table is that of `Grammar.ofRules`.
-/

namespace Lookahead

open Grammar (start epsilon)
open Rules (number leftSides alternativesFor rightNames terminalNames)

variable {lefts seen total : List String} {name : String}

/-! ## Numbers of more and more names -/

/-- The terminals among the names that have been read, in the order of their discovery. -/
def discovered (lefts seen : List String) : List String :=
  (seen.filter fun name => name ∉ lefts ∧ name ≠ epsilonName).eraseDups

theorem mem_discovered :
    name ∈ discovered lefts seen ↔ name ∈ seen ∧ name ∉ lefts ∧ name ≠ epsilonName := by
  simp [discovered, List.mem_eraseDups]

/-- What has been discovered stays in front. -/
theorem exists_discovered_append (lefts seen more : List String) :
    ∃ extra, discovered lefts (seen ++ more) = discovered lefts seen ++ extra := by
  rw [discovered, List.filter_append, List.eraseDups_append]
  exact ⟨_, rfl⟩

theorem discovered_concat_of_known (h : name ∈ lefts ∨ name = epsilonName ∨
    name ∈ discovered lefts seen) : discovered lefts (seen ++ [name]) = discovered lefts seen := by
  rw [discovered, List.filter_append]
  rcases h with h | h | h
  · rw [List.filter_cons_of_neg (by simp [h]), List.filter_nil, List.append_nil, discovered]
  · rw [List.filter_cons_of_neg (by simp [h]), List.filter_nil, List.append_nil, discovered]
  · obtain ⟨-, hleft, heps⟩ := mem_discovered.mp h
    rw [List.filter_cons_of_pos (by simp [hleft, heps]), List.filter_nil,
      eraseDups_concat_of_mem (List.mem_eraseDups.mp h), discovered]

theorem discovered_concat_of_new (hleft : name ∉ lefts) (heps : name ≠ epsilonName)
    (hnew : name ∉ discovered lefts seen) :
    discovered lefts (seen ++ [name]) = discovered lefts seen ++ [name] := by
  rw [discovered, List.filter_append, List.filter_cons_of_pos (by simp [hleft, heps]),
    List.filter_nil, eraseDups_concat_of_not_mem fun h => hnew (List.mem_eraseDups.mpr h),
    discovered]

theorem idxOf?_append (names more : List String) (name : String) : (names ++ more).idxOf? name =
    (names.idxOf? name).or ((more.idxOf? name).map (· + names.length)) :=
  List.findIdx?_append

theorem number_append_of_mem {names : List String} (h : name ∈ names) (more : List String) :
    number (names ++ more) name = number names name := by
  obtain ⟨k, hk⟩ := exists_idxOf?_eq_some h
  rw [number, number, idxOf?_append, hk, Option.some_or]

theorem number_of_not_mem {names : List String} (h : name ∉ names) :
    number names name = epsilon := by
  rw [number, List.idxOf?_eq_none_iff.mpr h]

theorem number_concat {names : List String} (h : name ∉ names) :
    number (names ++ [name]) name = start + names.length := by
  rw [number, idxOf?_append, List.idxOf?_eq_none_iff.mpr h]
  simp [List.idxOf?_cons]

theorem number_injOn {names : List String} {other : String} (h : name ∈ names)
    (h' : other ∈ names) (heq : number names name = number names other) : name = other := by
  obtain ⟨k, hk⟩ := exists_idxOf?_eq_some h
  obtain ⟨k', hk'⟩ := exists_idxOf?_eq_some h'
  rw [number, number, hk, hk'] at heq
  obtain rfl : k = k' := Nat.add_left_cancel heq
  obtain ⟨_, hname, -⟩ := List.idxOf?_eq_some_iff.mp hk
  obtain ⟨_, hother, -⟩ := List.idxOf?_eq_some_iff.mp hk'
  exact hname.symm.trans hother

/-- A name keeps the number that it has as soon as it has been read. -/
theorem number_discovered (h : seen <+: total) (hname : name ∈ seen) :
    number (lefts ++ discovered lefts total) name =
      number (lefts ++ discovered lefts seen) name := by
  obtain ⟨more, rfl⟩ := h
  by_cases hmem : name ∈ lefts ++ discovered lefts seen
  · obtain ⟨extra, hextra⟩ := exists_discovered_append lefts seen more
    rw [hextra, ← List.append_assoc, number_append_of_mem hmem]
  · obtain ⟨hleft, hnew⟩ := not_or.mp (List.mem_append.not.mp hmem)
    have heps : name = epsilonName := by
      by_contra heps
      exact hnew (mem_discovered.mpr ⟨hname, hleft, heps⟩)
    have hnot (names : List String) : name ∉ lefts ++ discovered lefts names := by
      simpa [mem_discovered, heps] using heps ▸ hleft
    rw [number_of_not_mem (hnot _), number_of_not_mem (hnot _)]

/-! ## Tables of grammars -/

namespace SymbolTable

variable {t : SymbolTable} {g g' : Grammar} {nts : List NonTerminal} {ts : List String}

/-- The table is that of the grammar. -/
structure Holds (t : SymbolTable) (g : Grammar) : Prop where
  entries : t.entries = g.symbols.mapIdx Entry.ofSymbol
  index? : ∀ name, t.index? name = g.indexOf? name
  warnings : t.warnings = g.suspects

theorem holds_empty : empty.Holds ⟨[], []⟩ where
  entries := rfl
  index? name := by
    show [(epsilonName, epsilon)].lookup name = if name = epsilonName then some epsilon else none
    rw [List.lookup_cons, List.lookup_nil]
    cases hb : name == epsilonName with
    | false => rw [if_neg (by simpa using hb)]
    | true => rw [if_pos (by simpa using hb)]
  warnings := rfl

theorem Holds.length_entries (h : t.Holds g) : t.entries.length = g.symbolCount := by
  rw [h.entries, List.length_mapIdx]
  rfl

theorem index?_push (t : SymbolTable) (name : String) (entry : Entry) (warning : List String)
    (other : String) : (t.push name entry warning).index? other =
      if other = name then some t.entries.length else t.index? other := by
  rw [SymbolTable.index?, SymbolTable.push, List.lookup_cons]
  cases hb : other == name with
  | false => rw [if_neg (by simpa using hb), SymbolTable.index?]
  | true => rw [if_pos (by simpa using hb)]

/-- A new name behind the others. -/
theorem indexOf?_of_names_eq_concat (h : g'.names = g.names ++ [name]) (hname : name ∉ g.names)
    (other : String) :
    g'.indexOf? other = if other = name then some g.symbolCount else g.indexOf? other := by
  have hidx : g'.names.idxOf? other =
      (g.names.idxOf? other).or (if name = other then some g.names.length else none) := by
    rw [h, idxOf?_append, List.idxOf?_cons]
    by_cases hother : name = other <;> simp [hother]
  rw [Grammar.indexOf?, Grammar.indexOf?, hidx, Grammar.symbolCount_eq_length_names]
  by_cases hother : other = name
  · rw [hother, List.idxOf?_eq_none_iff.mpr hname]
    simp
  · rw [if_neg hother, if_neg fun h => hother h.symm, Option.or_none]

/-- One more entry, for a name without an entry of its own. -/
theorem Holds.push {symbol : Symbol} {warning : List String} (h : t.Holds g)
    (hsymbols : g'.symbols = g.symbols ++ [symbol]) (hnames : g'.names = g.names ++ [name])
    (hname : name ∉ g.names) (hwarning : g'.suspects = g.suspects ++ warning) :
    (t.push name (Entry.ofSymbol t.entries.length symbol) warning).Holds g' where
  entries := by
    rw [hsymbols, List.mapIdx_concat, ← h.entries, h.length_entries]
    rfl
  index? other := by
    rw [index?_push, indexOf?_of_names_eq_concat hnames hname, ← h.index?, ← h.length_entries]
  warnings := by rw [hwarning, ← h.warnings]; rfl

theorem Holds.addNonTerminal (h : t.Holds ⟨nts, []⟩) (hname : name ∉ nts.map (·.name)) :
    ∃ t', SymbolTable.addNonTerminal name t = (start + nts.length, t') ∧
      t'.Holds ⟨nts ++ [⟨name, []⟩], []⟩ := by
  have hcount : t.entries.length = start + nts.length := by
    rw [h.length_entries, Grammar.symbolCount_eq]
    rfl
  have hpush := @Holds.push name t ⟨nts, []⟩ ⟨nts ++ [⟨name, []⟩], []⟩ (.nonTerminal ⟨name, []⟩) []
    h (by simp [Grammar.symbols]) (by simp [Grammar.names]) (by simpa [Grammar.names] using hname)
    rfl
  exact ⟨_, congrArg (Prod.mk · _) hcount, hpush⟩

theorem Holds.addTerminal (h : t.Holds ⟨nts, ts⟩) (hname : name ∉ nts.map (·.name) ++ ts) :
    ∃ t', SymbolTable.addTerminal name t = (start + (nts.length + ts.length), t') ∧
      t'.Holds ⟨nts, ts ++ [name]⟩ := by
  have hcount : t.entries.length = start + (nts.length + ts.length) := by
    rw [h.length_entries, Grammar.symbolCount_eq, Nat.add_assoc]
  have hpush := @Holds.push name t ⟨nts, ts⟩ ⟨nts, ts ++ [name]⟩ (.terminal name)
    (if Grammar.isCapitalized name then [name] else []) h (by simp [Grammar.symbols])
    (by simp [Grammar.names]) hname (by simp [Grammar.suspects, List.filter_cons])
  exact ⟨_, congrArg (Prod.mk · _) hcount, hpush⟩

theorem Holds.setProductions {done : List NonTerminal} {nt : NonTerminal} {todo : List NonTerminal}
    (h : t.Holds ⟨done ++ nt :: todo, ts⟩) (productions : List (List Nat)) :
    (t.setProductions (start + done.length) productions).Holds
      ⟨done ++ ⟨nt.name, productions⟩ :: todo, ts⟩ := by
  have hentry : t.entries[start + done.length]? = some (.nonTerminal (start + done.length) nt) := by
    rw [h.entries, List.getElem?_mapIdx, ← Grammar.symbol?, Grammar.symbol?_start_add]
    simp [Entry.ofSymbol]
  have hsymbols : Grammar.symbols ⟨done ++ ⟨nt.name, productions⟩ :: todo, ts⟩ =
      (Grammar.symbols ⟨done ++ nt :: todo, ts⟩).set (start + done.length)
        (.nonTerminal ⟨nt.name, productions⟩) := by
    rw [show start + done.length = done.length + 1 + 1 from Nat.add_comm 2 _]
    simp [Grammar.symbols]
  rw [SymbolTable.setProductions, hentry]
  refine ⟨?_, fun other => ?_, h.warnings⟩
  · rw [hsymbols, List.mapIdx_set, ← h.entries]
    rfl
  · refine (h.index? other).trans ?_
    simp [Grammar.indexOf?, Grammar.names]

/-! ## Reading names -/

/-- A name on the right gets its number, and has been read. -/
theorem Holds.intern (hlefts : lefts = nts.map (·.name)) (h : t.Holds ⟨nts, discovered lefts seen⟩)
    (name : String) : ∃ t', SymbolTable.intern name t =
        (number (lefts ++ discovered lefts (seen ++ [name])) name, t') ∧
      t'.Holds ⟨nts, discovered lefts (seen ++ [name])⟩ := by
  have hlookup := h.index? name
  rw [Grammar.indexOf?, Grammar.names, ← hlefts] at hlookup
  -- the name has an entry, or leads to the marker, or becomes the next terminal
  by_cases hmem : name ∈ lefts ++ discovered lefts seen
  · obtain ⟨k, hk⟩ := exists_idxOf?_eq_some hmem
    rw [hk] at hlookup
    rw [discovered_concat_of_known ((List.mem_append.mp hmem).imp_right Or.inr), SymbolTable.intern,
      hlookup, number, hk]
    exact ⟨t, rfl, h⟩
  rw [List.idxOf?_eq_none_iff.mpr hmem] at hlookup
  obtain ⟨hleft, hnew⟩ := not_or.mp (List.mem_append.not.mp hmem)
  by_cases heps : name = epsilonName
  · rw [if_pos heps] at hlookup
    rw [discovered_concat_of_known (Or.inr (Or.inl heps)), SymbolTable.intern, hlookup,
      number_of_not_mem hmem]
    exact ⟨t, rfl, h⟩
  · rw [if_neg heps] at hlookup
    obtain ⟨t', hadd, ht'⟩ := h.addTerminal (by rwa [← hlefts])
    have hlength : nts.length = lefts.length := by rw [hlefts, List.length_map]
    rw [discovered_concat_of_new hleft heps hnew, ← List.append_assoc, number_concat hmem,
      SymbolTable.intern, hlookup, List.length_append, ← hlength]
    exact ⟨t', hadd, ht'⟩

end SymbolTable

/-! ## Runs of steps -/

section Runs

variable {σ α β : Type} {f : α → StateM σ β} {g : α → β} {I : List α → σ → Prop} {items : List α}
  {s : σ}

theorem mapM_cons_apply (f : α → StateM σ β) (item : α) (items : List α) (s : σ) :
    (item :: items).mapM f s =
      ((f item s).1 :: (items.mapM f (f item s).2).1, (items.mapM f (f item s).2).2) := by
  rw [List.mapM_cons]
  rfl

/-- Where each step gives `g` of its item and keeps an invariant of the items behind it, so does
the run. -/
theorem mapM_apply (step : ∀ front item back s, items = front ++ item :: back → I front s →
      ∃ s', f item s = (g item, s') ∧ I (front ++ [item]) s')
    (h : I [] s) : ∃ s', items.mapM f s = (items.map g, s') ∧ I items s' := by
  suffices hrun : ∀ rest front s, items = front ++ rest → I front s →
      ∃ s', rest.mapM f s = (rest.map g, s') ∧ I items s' from hrun items [] s rfl h
  intro rest
  induction rest with
  | nil =>
    intro front s hsplit hs
    rw [List.append_nil] at hsplit
    exact ⟨s, rfl, hsplit ▸ hs⟩
  | cons item rest ih =>
    intro front s hsplit hs
    obtain ⟨s₁, hitem, hs₁⟩ := step front item rest s hsplit hs
    obtain ⟨s₂, hrest, hs₂⟩ := ih (front ++ [item]) s₁ (by simpa using hsplit) hs₁
    refine ⟨s₂, ?_, hs₂⟩
    rw [mapM_cons_apply, hitem, hrest]
    rfl

end Runs

namespace SymbolTable

variable {t : SymbolTable} {nts : List NonTerminal}

/-- An alternative is read, and gets the numbers of the finished table. -/
theorem Holds.mapM_intern (hlefts : lefts = nts.map (·.name)) {alternative : List String}
    (h : t.Holds ⟨nts, discovered lefts seen⟩) (htotal : seen ++ alternative <+: total) :
    ∃ t', alternative.mapM SymbolTable.intern t =
        (alternative.map (number (lefts ++ discovered lefts total)), t') ∧
      t'.Holds ⟨nts, discovered lefts (seen ++ alternative)⟩ := by
  refine mapM_apply
    (I := fun front (t : SymbolTable) => t.Holds ⟨nts, discovered lefts (seen ++ front)⟩)
    (fun front name back t hsplit ht => ?_) (by rwa [List.append_nil])
  obtain ⟨t', hname, ht'⟩ := ht.intern hlefts name
  have hread : seen ++ front ++ [name] <+: total := by
    refine List.IsPrefix.trans ?_ htotal
    rw [hsplit]
    exact ⟨back, by simp⟩
  rw [List.append_assoc] at ht' hread
  refine ⟨t', ?_, ht'⟩
  rw [hname, List.append_assoc, number_discovered hread (by simp)]

/-- So are alternatives one after the other. -/
theorem Holds.internAlternatives (hlefts : lefts = nts.map (·.name))
    {alternatives : List (List String)} (h : t.Holds ⟨nts, discovered lefts seen⟩)
    (htotal : seen ++ alternatives.flatten <+: total) :
    ∃ t', SymbolTable.internAlternatives alternatives t =
        (alternatives.map (·.map (number (lefts ++ discovered lefts total))), t') ∧
      t'.Holds ⟨nts, discovered lefts (seen ++ alternatives.flatten)⟩ := by
  refine mapM_apply
    (I := fun front (t : SymbolTable) => t.Holds ⟨nts, discovered lefts (seen ++ front.flatten)⟩)
    (fun front alternative back t hsplit ht => ?_) (by simpa using h)
  have hread : seen ++ front.flatten ++ alternative <+: total := by
    refine List.IsPrefix.trans ?_ htotal
    rw [hsplit]
    exact ⟨back.flatten, by simp⟩
  obtain ⟨t', halt, ht'⟩ := ht.mapM_intern hlefts hread
  exact ⟨t', halt, by simpa using ht'⟩

/-- Every left side gets the next number. -/
theorem holds_mapM_addNonTerminal (hnodup : lefts.Nodup) :
    ∃ t, lefts.mapM SymbolTable.addNonTerminal empty = (lefts.map (number lefts), t) ∧
      t.Holds ⟨lefts.map (⟨·, []⟩), []⟩ := by
  refine mapM_apply (I := fun front (t : SymbolTable) => t.Holds ⟨front.map (⟨·, []⟩), []⟩)
    (fun front left back t hsplit ht => ?_) holds_empty
  have hleft : left ∉ front := by
    rw [hsplit] at hnodup
    exact fun hmem => List.disjoint_of_nodup_append hnodup hmem (.head _)
  obtain ⟨t', hadd, ht'⟩ :=
    ht.addNonTerminal (show left ∉ _ by simpa [Function.comp_def] using hleft)
  refine ⟨t', ?_, by simpa using ht'⟩
  rw [hadd, hsplit, List.append_cons, number_append_of_mem (by simp), number_concat hleft,
    List.length_map]

/-- The left sides that are still without productions get them one after the other. -/
theorem Holds.fill {done : List NonTerminal} {todo : List (String × List (List String))}
    (hlefts : lefts = done.map (·.name) ++ todo.map (·.1))
    (h : t.Holds ⟨done ++ todo.map fun item => ⟨item.1, []⟩, discovered lefts seen⟩)
    (htotal : seen ++ todo.flatMap (·.2.flatten) <+: total) :
    (SymbolTable.fill ((List.range' (start + done.length) todo.length).zip (todo.map (·.2))) t).Holds
      ⟨done ++ todo.map fun item =>
          ⟨item.1, item.2.map (·.map (number (lefts ++ discovered lefts total)))⟩,
        discovered lefts (seen ++ todo.flatMap (·.2.flatten))⟩ := by
  induction todo generalizing done seen t with
  | nil => simpa [SymbolTable.fill] using h
  | cons item todo ih =>
    obtain ⟨left, alternatives⟩ := item
    rw [List.flatMap_cons, ← List.append_assoc] at htotal
    obtain ⟨t₁, hread, ht₁⟩ := h.internAlternatives (by simp [hlefts, Function.comp_def])
      ((List.prefix_append _ _).trans htotal)
    have ht₂ := ht₁.setProductions
      (alternatives.map (·.map (number (lefts ++ discovered lefts total))))
    -- the left side has been done, and its names have been read
    rw [List.append_cons] at ht₂
    have hrest := ih (by simp [hlefts]) ht₂ htotal
    rw [List.length_cons, List.range'_succ, List.map_cons, List.zip_cons_cons, SymbolTable.fill,
      hread]
    simpa [Nat.add_assoc] using hrest

end SymbolTable

/-! ## Collecting rules -/

namespace Rules

variable {rules : List Rule} {r : Rule} {left : String}

theorem leftSides_concat_of_mem (h : r.left ∈ leftSides rules) :
    leftSides (rules ++ [r]) = leftSides rules := by
  rw [leftSides, List.map_append]
  exact eraseDups_concat_of_mem (List.mem_eraseDups.mp h)

theorem leftSides_concat_of_not_mem (h : r.left ∉ leftSides rules) :
    leftSides (rules ++ [r]) = leftSides rules ++ [r.left] := by
  rw [leftSides, List.map_append]
  exact eraseDups_concat_of_not_mem fun hmem => h (List.mem_eraseDups.mpr hmem)

theorem alternativesFor_concat (rules : List Rule) (r : Rule) (left : String) :
    alternativesFor (rules ++ [r]) left =
      alternativesFor rules left ++ if r.left = left then r.alternatives else [] := by
  by_cases h : r.left = left <;> simp [alternativesFor, h]

theorem alternativesFor_eq_nil (h : left ∉ leftSides rules) : alternativesFor rules left = [] := by
  rw [alternativesFor, List.flatMap_eq_nil_iff]
  intro r hr
  obtain ⟨hr, heq⟩ := List.mem_filter.mp hr
  exact absurd (mem_leftSides.mpr ⟨r, hr, by simpa using heq⟩) h

theorem alternativesFor_concat_of_ne (h : r.left ≠ left) :
    alternativesFor (rules ++ [r]) left = alternativesFor rules left := by
  rw [alternativesFor_concat, if_neg h, List.append_nil]

/-- Distinct names are numbered one after the other. -/
theorem map_number_eq_range' {names : List String} (h : names.Nodup) :
    names.map (number names) = List.range' start names.length := by
  refine List.ext_getElem (by simp) fun k hk _ => ?_
  have hk' : k < names.length := by simpa using hk
  rw [List.getElem_map, number, idxOf?_getElem_of_nodup h hk', List.getElem_range', Nat.one_mul]

end Rules

namespace RuleBuilder

open Rules

variable {b : RuleBuilder} {rules : List Rule} {g : Grammar}

/-- The builder has collected the rules. -/
structure Collected (b : RuleBuilder) (rules : List Rule) : Prop where
  lefts : b.lefts = leftSides rules
  alternatives : b.alternatives = (leftSides rules).map (alternativesFor rules)
  positions : ∀ name, b.positions.lookup name = (leftSides rules).idxOf? name

theorem collected_empty : empty.Collected [] where
  lefts := rfl
  alternatives := rfl
  positions _ := rfl

/-- More alternatives for a left side that has come up before. -/
theorem modify_alternativesFor {r : Rule} {k : Nat}
    (h : (leftSides rules).idxOf? r.left = some k) :
    ((leftSides rules).map (alternativesFor rules)).modify k (· ++ r.alternatives) =
      (leftSides rules).map (alternativesFor (rules ++ [r])) := by
  obtain ⟨hk, hleft, hfirst⟩ := List.idxOf?_eq_some_iff.mp h
  refine List.ext_getElem (by simp) fun j hj _ => ?_
  have hj' : j < (leftSides rules).length := by simpa using hj
  rw [List.getElem_modify, List.getElem_map, List.getElem_map, alternativesFor_concat]
  by_cases hkj : k = j
  · subst hkj
    rw [if_pos rfl, if_pos hleft.symm]
  · have hne : r.left ≠ (leftSides rules)[j] := fun heq =>
      hkj ((List.Nodup.getElem_inj_iff (nodup_eraseDups _)).mp (hleft.trans heq))
    rw [if_neg hkj, if_neg hne, List.append_nil]

/-- One more rule is collected. -/
theorem Collected.add (h : b.Collected rules) (r : Rule) : (b.add r).Collected (rules ++ [r]) := by
  rw [RuleBuilder.add, h.positions]
  cases hidx : (leftSides rules).idxOf? r.left with
  | some k =>
    have hmem : r.left ∈ leftSides rules := List.isSome_idxOf?.mp (by rw [hidx]; rfl)
    have hsame := leftSides_concat_of_mem hmem
    exact {
      lefts := hsame ▸ h.lefts
      alternatives := by rw [hsame, ← modify_alternativesFor hidx, ← h.alternatives]
      positions := hsame ▸ h.positions }
  | none =>
    have hnew : r.left ∉ leftSides rules := List.idxOf?_eq_none_iff.mp hidx
    rw [RuleBuilder.Collected.lefts h]
    refine ⟨(leftSides_concat_of_not_mem hnew).symm, ?_, fun name => ?_⟩
    · have hold : (leftSides rules).map (alternativesFor (rules ++ [r])) =
          (leftSides rules).map (alternativesFor rules) :=
        List.map_congr_left fun left hleft =>
          alternativesFor_concat_of_ne fun heq => hnew (heq ▸ hleft)
      rw [leftSides_concat_of_not_mem hnew, List.map_append, hold, h.alternatives,
        List.map_singleton, alternativesFor_concat, alternativesFor_eq_nil hnew, if_pos rfl,
        List.nil_append]
    · rw [leftSides_concat_of_not_mem hnew, idxOf?_append, List.idxOf?_cons, List.lookup_cons,
        h.positions]
      cases hname : name == r.left with
      | false =>
        have hne : r.left ≠ name := fun heq => by simp [heq] at hname
        simp [hne]
      | true => simp [beq_iff_eq.mp hname, List.idxOf?_eq_none_iff.mpr hnew]

theorem collected_foldl (rest : List Rule) (h : b.Collected rules) :
    (rest.foldl RuleBuilder.add b).Collected (rules ++ rest) := by
  induction rest generalizing b rules with
  | nil => rwa [List.append_nil]
  | cons r rest ih =>
    rw [List.append_cons]
    exact ih (h.add r)

theorem collected_ofRules (rules : List Rule) : (ofRules rules).Collected rules :=
  collected_foldl rules collected_empty

/-! ## The finished table -/

/-- Without rules there is nothing to build. -/
theorem build_ofRules_error {e : GrammarError} (h : Grammar.ofRules rules = .error e) :
    (ofRules rules).build = .error e := by
  unfold Grammar.ofRules at h
  split at h
  · next hnil =>
    obtain rfl := List.isEmpty_iff.mp hnil
    obtain rfl := Except.error.inj h
    rfl
  · simp at h

/-- The table that interning makes of rules is that of their grammar, and the start symbol
comes first. -/
theorem build_ofRules (h : Grammar.ofRules rules = .ok g) :
    ∃ t, (ofRules rules).build = .ok (t, start) ∧ t.Holds g := by
  obtain ⟨hne, hn, ht⟩ := Grammar.ofRules_eq_ok h
  have hgrammar : g = ⟨(leftSides rules).map fun left => ⟨left, (alternativesFor rules left).map
      (·.map (number (leftSides rules ++ discovered (leftSides rules) (rightNames rules))))⟩,
      discovered (leftSides rules) (rightNames rules)⟩ := by
    cases g
    exact congr (congrArg Grammar.mk hn) ht
  have hnodup : (leftSides rules).Nodup := nodup_eraseDups _
  obtain ⟨t, hnumbers, hholds⟩ := SymbolTable.holds_mapM_addNonTerminal hnodup
  have hfilled := @SymbolTable.Holds.fill (leftSides rules) [] (rightNames rules) t []
    ((leftSides rules).map fun left => (left, alternativesFor rules left))
    (by simp [Function.comp_def]) (by simpa [Function.comp_def, discovered] using hholds)
    (by simp [List.flatMap_map, rightNames])
  simp only [List.length_nil, Nat.add_zero, List.length_map, List.nil_append, List.map_map,
    Function.comp_def, List.flatMap_map] at hfilled
  have hcollected := collected_ofRules rules
  rw [build, hcollected.lefts, hnumbers, hcollected.alternatives, map_number_eq_range' hnodup,
    hgrammar]
  refine ⟨_, ?_, hfilled⟩
  -- there is a left side, so the numbers of the left sides start with that of the start symbol
  obtain ⟨m, hm⟩ := Nat.exists_eq_succ_of_ne_zero
    (mt List.length_eq_zero_iff.mp (mt leftSides_eq_nil_iff.mp hne))
  rw [hm, List.range'_succ]

end RuleBuilder

end Lookahead
