import Lookahead.LeftCorner.Links
import Lookahead.Proofs.Grammar.Representation
import Lookahead.Proofs.LeftCorner.Cycle

/-!
# The search as it runs finds the same cycle

A search keeps no trails (`Search`), but those of `searchFrom` can be told from what it keeps
(`Grammar.Matches`) : walking back from a non-terminal on the stack comes upon the steps of its
trail (`Trail.Recorded`). What is recorded stays, as an alternative is only recorded for a
non-terminal that has not been visited before (`Search.Consistent`).

From one non-terminal there is only one way back (`Trail.Recorded.eq_of_tip_eq`). So a way back
does not come upon a non-terminal twice, or it would have two lengths (`Trail.Recorded.nodup`).

* `explore_eq_searchFrom` : the search comes to an end, and finds what `searchFrom` does.
* `findLeftRecursion_eq` : every alternative is found at its place, so the report is the same.
-/

namespace Lookahead

open Grammar (start)

namespace Grammar

variable {g : Grammar} {root current i j : Nat} {s : Search} {rights : List (List Nat)}
  {trail : Trail} {p : Production}

/-! ## Alternatives by their places -/

/-- The first alternative of `i` that starts with `j`, by its place. -/
def linkTo (g : Grammar) (i j : Nat) : Link :=
  ⟨i, (g.alternatives i).findIdx (·.head? = some j)⟩

/-- A production by the place of the first alternative that starts as it does. -/
def linkOf (g : Grammar) (p : Production) : Link :=
  ⟨p.left, (g.alternatives p.left).findIdx (·.head? = p.right.head?)⟩

theorem linkOf_of_productionTo? (h : g.productionTo? i j = some p) : g.linkOf p = g.linkTo i j := by
  obtain ⟨-, rfl, hj⟩ := g.productionTo?_eq_some h
  rw [linkOf, linkTo, hj]

/-- The first production from `i` to `j` with the alternatives around it. -/
theorem productionTo?_eq_some_iff : g.productionTo? i j = some p ↔
    p.left = i ∧ p.right.head? = some j ∧ ∃ front back,
      g.alternatives i = front ++ p.right :: back ∧ ∀ right ∈ front, right.head? ≠ some j := by
  rw [productionTo?, Option.map_eq_some_iff]
  constructor
  · rintro ⟨right, hright, rfl⟩
    obtain ⟨hhead, front, back, heq, hfront⟩ := List.find?_eq_some_iff_append.mp hright
    exact ⟨rfl, by simpa using hhead, front, back, heq, fun r hr => by simpa using hfront r hr⟩
  · rintro ⟨rfl, hhead, front, back, heq, hfront⟩
    exact ⟨p.right, List.find?_eq_some_iff_append.mpr ⟨by simpa using hhead, front, back, heq,
      fun r hr => by simpa using hfront r hr⟩, rfl⟩

/-- Of the alternatives in front none starts with `j`, so the next one that does is the first. -/
theorem linkTo_eq {front back : List (List Nat)} {right : List Nat}
    (hsplit : g.alternatives i = front ++ right :: back) (hright : right.head? = some j)
    (hfront : ∀ r ∈ front, r.head? ≠ some j) : g.linkTo i j = ⟨i, front.length⟩ := by
  rw [linkTo, hsplit, List.findIdx_append, List.findIdx_cons]
  simp [hright, List.findIdx_eq_length.mpr fun r hr => decide_eq_false (hfront r hr)]

end Grammar

/-! ## Reading the alternatives of one non-terminal -/

namespace Search

/-- The search after it has come from `current` to each of the given non-terminals. -/
def reachAll (g : Grammar) (current : Nat) (s : Search) (reached : List Nat) : Search :=
  reached.foldl (fun s j => s.reach j (g.linkTo current j)) s

variable {g : Grammar} {current j : Nat} {s : Search} {reached : List Nat}

theorem reachAll_append (xs ys : List Nat) :
    s.reachAll g current (xs ++ ys) = (s.reachAll g current xs).reachAll g current ys :=
  List.foldl_append

theorem stack_reachAll : (s.reachAll g current reached).stack = reached.reverse ++ s.stack := by
  induction reached generalizing s with
  | nil => rfl
  | cons j reached ih =>
    rw [reachAll, List.foldl_cons, ← reachAll, ih]
    simp [reach]

theorem mem_visited_reachAll : j ∈ (s.reachAll g current reached).visited ↔
    j ∈ reached ∨ j ∈ s.visited := by
  induction reached generalizing s with
  | nil => simp [reachAll]
  | cons i reached ih =>
    rw [reachAll, List.foldl_cons, ← reachAll, ih]
    simp [reach, or_left_comm, or_assoc]

theorem lookup_reachAll : (s.reachAll g current reached).reachedBy.lookup j =
    if j ∈ reached then some (g.linkTo current j) else s.reachedBy.lookup j := by
  induction reached generalizing s with
  | nil => rfl
  | cons i reached ih =>
    rw [reachAll, List.foldl_cons, ← reachAll, ih]
    by_cases hj : j ∈ reached
    · simp [hj]
    · by_cases hij : j = i
      · subst hij
        simp [hj, reach]
      · have hne : (j == i) = false := by simpa using hij
        simp [hj, hij, reach, List.lookup_cons, hne]

end Search

namespace Grammar

variable {g : Grammar} {root current i j : Nat} {s : Search} {rights : List (List Nat)}
  {trail : Trail} {p : Production}

/-- The non-terminals that come first in some alternative and have not been visited. -/
def unvisited (g : Grammar) (visited : List Nat) (rights : List (List Nat)) : List Nat :=
  (rights.filterMap List.head?).eraseDups.filter fun j => g.IsNonTerminal j ∧ j ∉ visited

theorem mem_unvisited {visited : List Nat} : j ∈ g.unvisited visited rights ↔
    (∃ right ∈ rights, right.head? = some j) ∧ g.IsNonTerminal j ∧ j ∉ visited := by
  simp [unvisited, List.mem_eraseDups]

theorem unvisited_append_of_mem {visited right : List Nat} (hhead : right.head? = some j)
    (hn : g.IsNonTerminal j) (hv : j ∉ visited) (hu : j ∉ g.unvisited visited rights) :
    g.unvisited visited (rights ++ [right]) = g.unvisited visited rights ++ [j] := by
  have hj : j ∉ rights.filterMap List.head? := by
    simpa [mem_unvisited, hn, hv] using hu
  have hlast : [right].filterMap List.head? = [j] := by simp [hhead]
  have hnew : [j].removeAll (rights.filterMap List.head?) = [j] := by
    simpa [List.removeAll] using hj
  have hone : [j].eraseDups = [j] := List.eraseDups_cons
  rw [unvisited, List.filterMap_append, hlast, List.eraseDups_append, hnew, hone,
    List.filter_append]
  simp [unvisited, hn, hv]

theorem unvisited_append_of_not_mem {visited right : List Nat} (h : ∀ j, right.head? = some j →
    g.IsNonTerminal j → j ∉ visited → j ∈ g.unvisited visited rights) :
    g.unvisited visited (rights ++ [right]) = g.unvisited visited rights := by
  rw [unvisited, List.filterMap_append, List.eraseDups_append, List.filter_append, ← unvisited,
    List.append_right_eq_self]
  refine List.filter_eq_nil_iff.mpr fun j hj hfresh => ?_
  obtain ⟨hlast, hj⟩ := List.mem_filter.mp (List.mem_eraseDups.mp hj)
  obtain ⟨hn, hv⟩ := of_decide_eq_true hfresh
  have hhead : right.head? = some j := by simpa using hlast
  have hold : j ∈ rights.filterMap List.head? :=
    List.mem_filterMap.mpr (mem_unvisited.mp (h j hhead hn hv)).1
  simp [hold] at hj

theorem isNonTerminal_symbol_iff {symbol : Symbol} (h : g.symbol? i = some symbol) :
    symbol.isNonTerminal = true ↔ g.IsNonTerminal i := by
  constructor
  · intro hs
    by_contra hn
    have hlt : i < g.symbolCount := (List.getElem?_eq_some_iff.mp h).1
    rcases Nat.lt_or_ge i start with hmarker | hle
    · match i with
      | 0 | 1 =>
        obtain rfl := Option.some.inj h
        cases hs
      | i + 2 => exact absurd hmarker (Nat.not_lt.mpr (Nat.le_add_left 2 i))
    · obtain ⟨name, ht⟩ :=
        symbol?_of_isTerminal ((isNonTerminal_or_isTerminal hle hlt).resolve_left hn)
      obtain rfl := Option.some.inj (h.symm.trans ht)
      cases hs
  · intro hn
    obtain ⟨nt, hnt, -⟩ := symbol?_of_isNonTerminal hn
    obtain rfl := Option.some.inj (h.symm.trans hnt)
    rfl

/-- An alternative that does not lead back to the root is read. -/
theorem scan_cons (hg : g.WellFormed) {right : List Nat} {tail : List (List Nat)}
    (hclose : right.head? = some root → current = root)
    (hsplit : g.alternatives current = rights ++ right :: tail) :
    g.scan root current rights.length (s.reachAll g current (g.unvisited s.visited rights))
        (right :: tail) =
      g.scan root current (rights.length + 1)
        (s.reachAll g current (g.unvisited s.visited (rights ++ [right]))) tail := by
  rw [scan]
  cases hhead : right.head? with
  | none =>
    rw [unvisited_append_of_not_mem (by simp [hhead])]
  | some j =>
    have hroot : ¬(j = root ∧ current ≠ root) := fun h => h.2 (hclose (h.1 ▸ hhead))
    have hmem : ⟨current, right⟩ ∈ g.productions := g.mem_productions.mpr (by simp [hsplit])
    have hlt : j < g.symbolCount := hg.lt_of_mem_right _ hmem j (List.mem_of_mem_head? hhead)
    have hsymbol : g.symbol? j = some g.symbols[j] := List.getElem?_eq_getElem hlt
    simp only [if_neg hroot, hsymbol, isNonTerminal_symbol_iff hsymbol,
      Search.mem_visited_reachAll, not_or]
    split
    · next hfresh =>
      obtain ⟨hn, hu, hv⟩ := hfresh
      -- `j` has not come first before, so this is the first alternative that starts with it
      have hplace : g.linkTo current j = ⟨current, rights.length⟩ :=
        linkTo_eq hsplit hhead fun r hr heq => hu (mem_unvisited.mpr ⟨⟨r, hr, heq⟩, hn, hv⟩)
      rw [unvisited_append_of_mem hhead hn hv hu, Search.reachAll_append, ← hplace]
      rfl
    · next hfresh =>
      rw [unvisited_append_of_not_mem]
      intro k hk hn hv
      obtain rfl := Option.some.inj (hhead.symm.trans hk)
      by_contra hu
      exact hfresh ⟨hn, hu, hv⟩

/-- So are alternatives one after the other. -/
theorem scan_append (hg : g.WellFormed)
    (hclose : ∀ right ∈ rights, right.head? = some root → current = root)
    {tail : List (List Nat)} (hsplit : g.alternatives current = rights ++ tail) :
    g.scan root current 0 s (rights ++ tail) = g.scan root current rights.length
      (s.reachAll g current (g.unvisited s.visited rights)) tail := by
  induction rights using List.reverseRecOn generalizing tail with
  | nil => rfl
  | append_singleton rights right ih =>
    have hfront (r : List Nat) (hr : r ∈ rights) := hclose r (List.mem_append_left _ hr)
    rw [List.append_assoc, List.singleton_append] at hsplit ⊢
    rw [ih hfront hsplit, scan_cons hg (hclose right (by simp)) hsplit, List.length_append,
      List.length_singleton]

/-- If no alternative leads back to the root, each non-terminal that comes first in one of them is
reached, unless it has been visited. -/
theorem scan_eq_reachAll (hg : g.WellFormed) (hclose : ∀ right ∈ g.alternatives current,
    right.head? = some root → current = root) : g.scan root current 0 s (g.alternatives current) =
      some (s.reachAll g current (g.unvisited s.visited (g.alternatives current)), none) := by
  have := scan_append (s := s) hg hclose (List.append_nil _).symm
  rwa [List.append_nil] at this

/-- If some alternative leads back to the root, the first one does. -/
theorem exists_scan_eq (hg : g.WellFormed) (hp : g.productionTo? current root = some p)
    (hne : current ≠ root) : ∃ reached, (∀ j ∈ reached, g.IsNonTerminal j ∧ j ∉ s.visited) ∧
      g.scan root current 0 s (g.alternatives current) =
        some (s.reachAll g current reached, some (g.linkOf p)) := by
  obtain ⟨-, hhead, front, back, hsplit, hfront⟩ := productionTo?_eq_some_iff.mp hp
  refine ⟨g.unvisited s.visited front, fun j hj => (mem_unvisited.mp hj).2, ?_⟩
  rw [linkOf_of_productionTo? hp, linkTo_eq hsplit hhead hfront, hsplit,
    scan_append hg (fun r hr heq => absurd heq (hfront r hr)) hsplit, scan, hhead]
  exact if_pos ⟨rfl, hne⟩

end Grammar

/-! ## The way back -/

/-- The steps of the trail are what walking back from its tip comes upon. -/
inductive Trail.Recorded (g : Grammar) (root : Nat) (reachedBy : List (Nat × Link)) : Trail → Prop
  | start (hroot : reachedBy.lookup root = none) : Trail.Recorded g root reachedBy ⟨root, []⟩
  | step {trail : Trail} {j : Nat} {p : Production} (way : Trail.Recorded g root reachedBy trail)
    (hp : g.productionTo? trail.tip j = some p)
    (hj : reachedBy.lookup j = some (g.linkTo trail.tip j)) :
    Trail.Recorded g root reachedBy ⟨j, p :: trail.steps⟩

namespace Trail.Recorded

variable {g : Grammar} {root : Nat} {trail other : Trail} {reachedBy reachedBy' : List (Nat × Link)}

/-- Steps that are recorded stay so, if no record is lost. -/
theorem mono (h : trail.Recorded g root reachedBy) (hroot : reachedBy'.lookup root = none)
    (hlookup : ∀ j link, reachedBy.lookup j = some link → reachedBy'.lookup j = some link) :
    trail.Recorded g root reachedBy' := by
  induction h with
  | start => exact .start hroot
  | step _ hp hj ih => exact .step ih hp (hlookup _ _ hj)

theorem walkBack_eq {s : Search} (h : trail.Recorded g root s.reachedBy) (chain : List Link) :
    s.walkBack trail.tip chain = some (trail.steps.reverse.map g.linkOf ++ chain) := by
  induction h generalizing chain with
  | start hroot =>
    rw [Search.walkBack, hroot]
    rfl
  | @step trail j p way hp hj ih =>
    rw [Search.walkBack, hj]
    simp only
    rw [← Grammar.linkOf_of_productionTo? hp]
    have hleft : (g.linkOf p).left = trail.tip := (g.productionTo?_eq_some hp).2.1
    rw [hleft, ih]
    simp

/-- Walking back from one non-terminal, there is only one way. -/
theorem eq_of_tip_eq (h : trail.Recorded g root reachedBy)
    (hother : other.Recorded g root reachedBy) (htip : trail.tip = other.tip) : trail = other := by
  induction h generalizing other with
  | start hroot =>
    cases hother with
    | start => rfl
    | step _ _ hj =>
      simp only at htip
      simp [← htip, hroot] at hj
  | step way hp hj ih =>
    cases hother with
    | start hroot =>
      simp only at htip
      simp [htip, hroot] at hj
    | step way' hp' hj' =>
      simp only at htip
      subst htip
      -- both ways go back by what is recorded for the tip
      have hlink := Option.some.inj (hj.symm.trans hj')
      obtain rfl := ih way' (congrArg Link.left hlink)
      obtain rfl := Option.some.inj (hp.symm.trans hp')
      rfl

/-- Every step of a trail starts at the tip of a trail that is shorter. -/
theorem exists_of_mem_steps (h : trail.Recorded g root reachedBy) {p : Production}
    (hp : p ∈ trail.steps) : ∃ before : Trail, before.Recorded g root reachedBy ∧
      before.tip = p.left ∧ before.steps.length < trail.steps.length := by
  induction h with
  | start => exact absurd hp List.not_mem_nil
  | @step trail j q way hq hj ih =>
    rcases List.mem_cons.mp hp with rfl | hp
    · exact ⟨trail, way, (g.productionTo?_eq_some hq).2.1.symm, Nat.lt_succ_self _⟩
    · obtain ⟨before, hbefore, htip, hlt⟩ := ih hp
      exact ⟨before, hbefore, htip, Nat.lt_succ_of_lt hlt⟩

/-- A way back does not come upon a non-terminal twice. -/
theorem tip_not_mem (h : trail.Recorded g root reachedBy) :
    trail.tip ∉ trail.steps.map Production.left := by
  intro hmem
  obtain ⟨p, hp, hleft⟩ := List.mem_map.mp hmem
  obtain ⟨before, hbefore, htip, hlt⟩ := h.exists_of_mem_steps hp
  obtain rfl := hbefore.eq_of_tip_eq h (htip.trans hleft)
  exact Nat.lt_irrefl _ hlt

theorem nodup (h : trail.Recorded g root reachedBy) :
    (trail.tip :: trail.steps.map Production.left).Nodup := by
  refine List.nodup_cons.mpr ⟨h.tip_not_mem, ?_⟩
  induction h with
  | start => exact List.nodup_nil
  | step way hp hj ih =>
    obtain ⟨-, hleft, -⟩ := g.productionTo?_eq_some hp
    rw [List.map_cons, hleft]
    exact List.nodup_cons.mpr ⟨way.tip_not_mem, ih⟩

end Trail.Recorded

/-! ## The search -/

/-- The root has been visited, but nothing led to it, and nothing led to where the search has not
been. -/
structure Search.Consistent (root : Nat) (s : Search) : Prop where
  root_mem : root ∈ s.visited
  lookup_root : s.reachedBy.lookup root = none
  lookup_eq_none : ∀ j, j ∉ s.visited → s.reachedBy.lookup j = none

namespace Search.Consistent

variable {g : Grammar} {root current : Nat} {s : Search} {reached : List Nat} {trail : Trail}

theorem start (root : Nat) : Consistent root (.start root) :=
  ⟨List.mem_singleton.mpr rfl, rfl, fun _ _ => rfl⟩

theorem with_stack (h : s.Consistent root) (stack : List Nat) :
    Consistent root { s with stack } :=
  ⟨h.root_mem, h.lookup_root, h.lookup_eq_none⟩

variable (h : s.Consistent root) (hnew : ∀ j ∈ reached, j ∉ s.visited)
include h hnew

theorem reachAll : (s.reachAll g current reached).Consistent root where
  root_mem := mem_visited_reachAll.mpr (Or.inr h.root_mem)
  lookup_root := by
    rw [lookup_reachAll, if_neg fun hmem => hnew root hmem h.root_mem, h.lookup_root]
  lookup_eq_none j hj := by
    rw [mem_visited_reachAll, not_or] at hj
    rw [lookup_reachAll, if_neg hj.1, h.lookup_eq_none j hj.2]

/-- What is recorded stays, as only non-terminals that have not been visited are reached. -/
theorem recorded_reachAll (htrail : trail.Recorded g root s.reachedBy) :
    trail.Recorded g root (s.reachAll g current reached).reachedBy := by
  refine htrail.mono (h.reachAll hnew).lookup_root fun j link hj => ?_
  rw [lookup_reachAll, if_neg fun hmem => ?_, hj]
  rw [h.lookup_eq_none j (hnew j hmem)] at hj
  cases hj

end Search.Consistent

namespace Grammar

variable {g : Grammar} {root current i j : Nat} {s : Search} {unreached : List Nat}
  {stack : List Trail} {cycle : List Production} {p : Production}

/-- The search keeps no trails, but those of `searchFrom` can be told from what it keeps. -/
structure Matches (g : Grammar) (root : Nat) (s : Search) (unreached : List Nat)
    (stack : List Trail) : Prop where
  consistent : s.Consistent root
  stack_eq : s.stack = stack.map Trail.tip
  mem_unreached : ∀ j, j ∈ unreached ↔ g.IsNonTerminal j ∧ j ∉ s.visited
  recorded : ∀ trail ∈ stack, trail.Recorded g root s.reachedBy

theorem matches_start (g : Grammar) (root : Nat) :
    g.Matches root (.start root) (g.nonTerminalIndexes.filter (· ≠ root)) [⟨root, []⟩] where
  consistent := .start root
  stack_eq := rfl
  mem_unreached j := by
    rw [mem_unreached_start]
    exact and_congr_right fun _ => List.mem_singleton.not.symm
  recorded trail htrail := by
    obtain rfl := List.mem_singleton.mp htrail
    exact .start rfl

theorem map_tip_extend {trail : Trail} {corners : List Nat}
    (h : ∀ j ∈ corners, j ∈ g.leftCorners trail.tip) :
    (g.extend trail corners).map Trail.tip = corners := by
  induction corners with
  | nil => rfl
  | cons j corners ih =>
    obtain ⟨p, hp⟩ := Option.isSome_iff_exists.mp (g.productionTo?_isSome.mpr (h j (.head _)))
    have hrest := ih fun k hk => h k (.tail _ hk)
    rw [extend] at hrest ⊢
    rw [List.filterMap_cons_some (by rw [hp]; rfl), List.map_cons, hrest]

/-- Reading the alternatives of the non-terminal on top goes on from its trail. -/
theorem Matches.step {trail : Trail} (h : g.Matches root s unreached (trail :: stack))
    {fresh : List Nat} (hfresh : fresh = (g.leftCorners trail.tip).filter (· ∈ unreached)) :
    g.Matches root
      (({ s with stack := stack.map Trail.tip } : Search).reachAll g trail.tip fresh)
      (unreached.removeAll fresh) ((g.extend trail fresh).reverse ++ stack) := by
  have hmem {j : Nat} (hj : j ∈ fresh) : j ∈ g.leftCorners trail.tip ∧ j ∈ unreached := by
    simpa [hfresh] using hj
  have hnew (j : Nat) (hj : j ∈ fresh) : j ∉ s.visited := ((h.mem_unreached j).mp (hmem hj).2).2
  have hcons := h.consistent.with_stack (stack.map Trail.tip)
  refine ⟨hcons.reachAll hnew, ?_, fun j => ?_, fun next hnext => ?_⟩
  · rw [Search.stack_reachAll, List.map_append, List.map_reverse,
      map_tip_extend fun j hj => (hmem hj).1]
  · rw [Search.mem_visited_reachAll, not_or, and_left_comm, ← h.mem_unreached, and_comm]
    simp [List.removeAll]
  · rcases List.mem_append.mp hnext with hnext | hnext
    · obtain ⟨j, hj, p, hp, rfl⟩ := mem_extend.mp (List.mem_reverse.mp hnext)
      refine .step (hcons.recorded_reachAll hnew (h.recorded trail List.mem_cons_self)) hp ?_
      rw [Search.lookup_reachAll, if_pos hj]
    · exact hcons.recorded_reachAll hnew (h.recorded next (List.mem_cons_of_mem _ hnext))

/-- What `searchFrom` takes for fresh is what has not been visited. -/
theorem Matches.filter_leftCorners (h : g.Matches root s unreached stack) (i : Nat) :
    (g.leftCorners i).filter (· ∈ unreached) = g.unvisited s.visited (g.alternatives i) :=
  List.filter_congr fun j _ => decide_eq_decide.mpr (h.mem_unreached j)

/-- The search comes to an end and finds what `searchFrom` does, on a way that does not come upon
a non-terminal twice. -/
theorem explore_eq_searchFrom (hg : g.WellFormed)
    (hdirect : g.productionTo? root root = none) :
    ∀ s, g.Matches root s unreached stack → g.explore root s =
        some ((g.searchFrom root unreached stack).map fun cycle => cycle.map g.linkOf) ∧
      ∀ cycle, g.searchFrom root unreached stack = some cycle →
        (cycle.map Production.left).Nodup := by
  induction unreached, stack using searchFrom.induct g root with
  | case1 =>
    intro s h
    rw [explore, h.stack_eq, searchFrom]
    simp
  | case2 unreached trail stack p hp =>
    intro s h
    -- the tip leads back to the root, and walking back from it comes upon the steps of its trail
    have htrail := h.recorded trail List.mem_cons_self
    have hne : trail.tip ≠ root := fun heq => by simp [heq, hdirect] at hp
    obtain ⟨reached, hreached, hscan⟩ :=
      exists_scan_eq (s := { s with stack := stack.map Trail.tip }) hg hp hne
    have hback : trail.Recorded g root (({ s with stack := stack.map Trail.tip } : Search).reachAll
        g trail.tip reached).reachedBy :=
      (h.consistent.with_stack _).recorded_reachAll (fun j hj => (hreached j hj).2) htrail
    rw [explore, h.stack_eq, searchFrom, hp]
    simp only [List.map_cons, hscan, hback.walkBack_eq]
    refine ⟨by simp, fun cycle hcycle => ?_⟩
    rw [← Option.some.inj hcycle, List.map_reverse, List.nodup_reverse, List.map_cons,
      (g.productionTo?_eq_some hp).2.1]
    exact htrail.nodup
  | case3 unreached trail stack hp fresh ih =>
    intro s h
    have hclose (right : List Nat) (hr : right ∈ g.alternatives trail.tip)
        (hhead : right.head? = some root) : trail.tip = root := by
      have := g.productionTo?_isSome.mpr (g.mem_leftCorners.mpr ⟨right, hr, hhead⟩)
      simp [hp] at this
    rw [explore, h.stack_eq, searchFrom, hp]
    simp only [List.map_cons, scan_eq_reachAll hg hclose, ← h.filter_leftCorners]
    exact ih _ (h.step rfl)

/-! ## The report -/

theorem directLink?_eq (g : Grammar) (root : Nat) :
    g.directLink? root = (g.productionTo? root root).map g.linkOf := by
  cases hp : g.productionTo? root root with
  | none =>
    rw [productionTo?, Option.map_eq_none_iff, List.find?_eq_none] at hp
    simpa [directLink?] using hp
  | some p =>
    obtain ⟨-, hhead, front, back, hsplit, -⟩ := productionTo?_eq_some_iff.mp hp
    have hmem : p.right ∈ g.alternatives root := by simp [hsplit]
    have hlt : (g.alternatives root).findIdx (·.head? = some root) < (g.alternatives root).length :=
      List.findIdx_lt_length_of_exists ⟨p.right, hmem, decide_eq_true hhead⟩
    rw [Option.map_some, linkOf_of_productionTo? hp, directLink?,
      List.findIdx?_eq_some_iff_findIdx_eq.mpr ⟨hlt, rfl⟩]
    rfl

/-- The search as it runs finds the way back that `leftCycle?` finds. -/
theorem linkedCycle?_eq (hg : g.WellFormed) (hroot : g.IsNonTerminal root) : g.linkedCycle? root =
    some ((g.leftCycle? root).map fun cycle =>
      ((g.reportCycle root cycle).kind, cycle.map g.linkOf)) := by
  rw [linkedCycle?, directLink?_eq]
  cases hp : g.productionTo? root root with
  | some p =>
    rw [leftCycle?, searchFrom, hp]
    rfl
  | none =>
    have hkind : ∀ cycle, g.leftCycle? root = some cycle →
        (g.reportCycle root cycle).kind = .indirect := by
      intro cycle hcycle
      have hedge : ¬g.LeftEdge root root := fun hedge => by
        have := g.productionTo?_isSome.mpr hedge.2
        simp [hp] at this
      rw [← reportCycle_kind_eq_direct_iff hroot hcycle] at hedge
      cases hkind : (g.reportCycle root cycle).kind with
      | direct => exact absurd hkind hedge
      | indirect => rfl
    rw [Option.map_none]
    simp only
    rw [(explore_eq_searchFrom hg hp _ (matches_start g root)).1, ← leftCycle?]
    cases hcycle : g.leftCycle? root with
    | none => rfl
    | some cycle => simp [hkind cycle hcycle]

/-- The alternative at the place of a link is the one that the link was made for. -/
theorem spellLink?_linkOf (hg : g.WellFormed) (h : g.productionTo? i j = some p) :
    g.spellLink? (g.linkOf p) = some (some (g.name p.left, g.spell p.right)) := by
  obtain ⟨hp, -, -⟩ := g.productionTo?_eq_some h
  obtain ⟨rfl, hhead, front, back, hsplit, hfront⟩ := productionTo?_eq_some_iff.mp h
  obtain ⟨nt, hsymbol, hnt⟩ := symbol?_of_isNonTerminal (g.isNonTerminal_of_mem_productions hp)
  have hname : g.name p.left = nt.name := by
    rw [Grammar.name, Grammar.name?, hsymbol]
    rfl
  have hplace : nt.productions[front.length]? = some p.right := by
    have : g.alternatives p.left = nt.productions := by
      rw [alternatives, hnt]
      rfl
    rw [← this, hsplit]
    simp
  have hspell := spell?_eq_some (hg.lt_of_mem_right p hp)
  rw [spellLink?, linkOf_of_productionTo? h, linkTo_eq hsplit hhead hfront]
  simp [hnt, hplace, hspell, hname]

theorem mapM_spellLink? (hg : g.WellFormed) (hroot : g.IsNonTerminal root)
    (h : g.leftCycle? root = some cycle) : (cycle.map g.linkOf).mapM g.spellLink? =
      some ((g.reportCycle root cycle).chain.map some) := by
  rw [reportCycle, List.map_map, List.mapM_map]
  refine mapM_eq_some_map fun p hp => ?_
  obtain ⟨j, hj⟩ := exists_productionTo?_of_mem_leftCycle? hroot h hp
  exact spellLink?_linkOf hg hj

theorem reportLinks?_eq (hg : g.WellFormed) (hroot : g.IsNonTerminal root)
    (h : g.leftCycle? root = some cycle) (kind : LeftRecursion.Kind) :
    g.reportLinks? root kind (cycle.map g.linkOf) = some (kind, g.reportCycle root cycle) := by
  rw [reportLinks?, mapM_spellLink? hg hroot h, name?_eq_some hroot.lt_symbolCount]
  simp [reportCycle, List.filterMap_map]

theorem findLeftRecursionFrom_eq (hg : g.WellFormed) {roots : List Nat}
    (hroots : ∀ i ∈ roots, g.IsNonTerminal i) : g.findLeftRecursionFrom roots =
      some ((roots.findSome? fun i => (g.leftCycle? i).map (g.reportCycle i)).map
        fun r => (r.kind, r)) := by
  induction roots with
  | nil => rfl
  | cons root roots ih =>
    have hroot := hroots root List.mem_cons_self
    rw [findLeftRecursionFrom, linkedCycle?_eq hg hroot, List.findSome?_cons]
    cases hcycle : g.leftCycle? root with
    | none => exact ih fun i hi => hroots i (List.mem_cons_of_mem root hi)
    | some cycle => simp [reportLinks?_eq hg hroot hcycle]

/-- The search as it runs comes to an end with the report, and with the kind that fits it. -/
theorem findLeftRecursion_eq (hg : g.WellFormed) :
    g.findLeftRecursion = some (g.leftRecursion?.map fun r => (r.kind, r)) :=
  findLeftRecursionFrom_eq hg fun _ hi => g.mem_nonTerminalIndexes.mp hi

end Grammar

end Lookahead
