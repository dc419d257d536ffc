import Mathlib.Data.List.GetD
import Mathlib.Data.List.ModifyLast
import Sonda.Proof.Compiler.Sorting

/-!
# The search for a cycle

`Searching` is what the depth-first search keeps: the gray places are those of the path,
which is a walk along the references, and no endless walk starts from a black place. A
visit either closes a walk or leaves its place black and the path as it was
(`dfs_spec`), so the search finds a closed walk unless every place is grounded
(`searchFrom_spec`, `findCycle_spec`).
-/

namespace Sonda.Compiler

open Framework List
open Config (Text)

/-! ## Colors -/

namespace Search

theorem colorOf_set (color : List Color) (path : List (Nat × ClauseKind)) (node i : Nat) (c : Color) :
    colorOf ⟨color.set node c, path⟩ i =
      if node = i ∧ node < color.length then c else colorOf ⟨color, path⟩ i := by
  simp only [colorOf, getD_eq_getElem?_getD, getElem?_set]
  by_cases hi : node = i
  · subst hi
    by_cases hlt : node < color.length
    · simp [hlt]
    · simp [hlt]
  · simp [hi]

theorem follow_path {s : Search} {p : List (Nat × ClauseKind)} {node : Nat} {k : ClauseKind}
    (h : s.path = p ++ [(node, k)]) (clause : ClauseKind) :
    (s.follow clause).path = p ++ [(node, clause)] := by
  show s.path.modifyLast _ = _
  rw [h, modifyLast_concat]

end Search

/-- Between two moments of the search, white places have become black and nothing else. -/
def Visited (s s' : Search) : Prop :=
  ∀ i, s'.colorOf i = s.colorOf i ∨ s.colorOf i = .white ∧ s'.colorOf i = .black

theorem Visited.refl (s : Search) : Visited s s := fun _ => .inl rfl

theorem Visited.trans {s s' s'' : Search} (h : Visited s s') (h' : Visited s' s'') : Visited s s'' := by
  intro i
  rcases h' i with h'i | ⟨hw, hb⟩
  · rw [h'i]
    exact h i
  · rcases h i with hi | ⟨-, hb'⟩
    · exact .inr ⟨hi ▸ hw, hb⟩
    · rw [hb'] at hw
      cases hw

theorem Visited.black {s s' : Search} (h : Visited s s') {i : Nat} (hi : s.colorOf i = .black) :
    s'.colorOf i = .black := by
  rcases h i with h | ⟨hw, -⟩
  · rw [h, hi]
  · rw [hi] at hw
    cases hw

/-- The places that are white. -/
def whites (n : Nat) (s : Search) : Finset Nat := (Finset.range n).filter fun i => s.colorOf i = .white

theorem Visited.whites_le {s s' : Search} (h : Visited s s') (n : Nat) :
    (whites n s').card ≤ (whites n s).card := by
  refine Finset.card_le_card fun i hi => ?_
  obtain ⟨hin, hwhite⟩ := Finset.mem_filter.1 hi
  refine Finset.mem_filter.2 ⟨hin, ?_⟩
  rcases h i with h | ⟨hw, -⟩
  · rw [← h, hwhite]
  · exact hw

/-! ## One visit -/

section

variable {file : ExpandedFile}
variable {p : List (Nat × ClauseKind)} {s : Search} {fuel node : Nat} {k : ClauseKind}

structure Searching (file : ExpandedFile) (s : Search) : Prop where
  length : s.color.length = file.entries.length
  linked : Linked file.edges s.path
  gray : ∀ i, s.colorOf i = .gray ↔ i ∈ s.path.map Prod.fst
  nodup : (s.path.map Prod.fst).Nodup
  black : ∀ i, s.colorOf i = .black → Grounded (Leads file.edges) i

/-- A place that the search can go on to. -/
structure Next (file : ExpandedFile) (fuel node : Nat) (s : Search) : Prop where
  searching : Searching file s
  bound : node < file.entries.length
  white : s.colorOf node = .white
  edge : ∀ x ∈ s.path.getLast?, (node, x.2) ∈ file.edges x.1
  fuel : (whites file.entries.length s).card ≤ fuel

/-- What a visit of a place comes to. -/
structure Outcome (file : ExpandedFile) (s : Search) (node : Nat) (found : Found) : Prop where
  closed : ∀ cycle s', found = (some cycle, s') → ClosedWalk file.edges cycle
  done : ∀ s', found = (none, s') →
    Searching file s' ∧ s'.path = s.path ∧ s'.colorOf node = .black ∧ Visited s s'

theorem Searching.follow (h : Searching file s) {node : Nat} (hpath : s.path = p ++ [(node, k)])
    (clause : ClauseKind) : Searching file (s.follow clause) := by
  have hfollow := Search.follow_path hpath clause
  have hfst : (s.follow clause).path.map Prod.fst = s.path.map Prod.fst := by
    simp [hfollow, hpath]
  refine ⟨h.length, ?_, fun i => ?_, ?_, h.black⟩
  · rw [hfollow]
    exact linked_relabel (hpath ▸ h.linked)
  · rw [hfst]
    exact h.gray i
  · rw [hfst]
    exact h.nodup

theorem Next.colorOf_enter (h : Next file fuel node s) (i : Nat) :
    (s.enter node).colorOf i = if node = i then .gray else s.colorOf i := by
  rw [Search.enter, Search.colorOf_set, h.searching.length]
  simp only [h.bound, and_true]
  rfl

theorem Next.enter (h : Next file (fuel + 1) node s) :
    Searching file (s.enter node) ∧ (whites file.entries.length (s.enter node)).card ≤ fuel := by
  have hcolor := h.colorOf_enter
  obtain ⟨⟨hlen, hlinked, hgray, hnodup, hblack⟩, hbound, hwhite, hedge, hfuel⟩ := h
  have hmap : (s.enter node).path.map Prod.fst = s.path.map Prod.fst ++ [node] := by
    simp [Search.enter]
  have hfresh : node ∉ s.path.map Prod.fst := fun hmem => by
    rw [(hgray node).2 hmem] at hwhite
    cases hwhite
  refine ⟨⟨?_, hlinked.concat hedge, fun i => ?_, ?_, fun i hi => ?_⟩, ?_⟩
  · simpa [Search.enter] using hlen
  · rw [hcolor, hmap, mem_append, mem_singleton, ← hgray i]
    by_cases hi : node = i
    · simp [hi]
    · simp [hi, Ne.symm hi]
  · rw [hmap]
    refine nodup_append.2 ⟨hnodup, nodup_singleton node, ?_⟩
    intro a ha b hb hab
    rw [mem_singleton.1 hb] at hab
    exact hfresh (hab ▸ ha)
  · rw [hcolor] at hi
    split at hi
    · cases hi
    · exact hblack i hi
  · -- The place itself is white no longer.
    have hlt : whites file.entries.length (s.enter node) ⊂ whites file.entries.length s := by
      refine Finset.ssubset_iff_subset_ne.2 ⟨fun i hi => ?_, fun heq => ?_⟩
      · obtain ⟨hin, hi⟩ := Finset.mem_filter.1 hi
        rw [hcolor] at hi
        split at hi
        · cases hi
        · exact Finset.mem_filter.2 ⟨hin, hi⟩
      · have hmem : node ∈ whites file.entries.length (s.enter node) :=
          heq ▸ Finset.mem_filter.2 ⟨Finset.mem_range.2 hbound, hwhite⟩
        have := (Finset.mem_filter.1 hmem).2
        rw [hcolor, if_pos rfl] at this
        cases this
    have := Finset.card_lt_card hlt
    omega

theorem Searching.leave {node : Nat} (h : Searching file s) (hpath : s.path = p ++ [(node, k)])
    (hdone : ∀ edge ∈ file.edges node, s.colorOf edge.1 = .black) :
    Searching file (s.leave node) ∧ (s.leave node).path = p ∧
      ∀ i, (s.leave node).colorOf i = if node = i then .black else s.colorOf i := by
  obtain ⟨hlen, hlinked, hgray, hnodup, hblack⟩ := h
  have hmem : node ∈ s.path.map Prod.fst := by simp [hpath]
  have hbound : node < file.entries.length := by
    by_contra hge
    have := (hgray node).2 hmem
    rw [Search.colorOf, getD_eq_default _ _ (by omega)] at this
    cases this
  have hp : (s.leave node).path = p := by simp [Search.leave, hpath]
  have hcolor : ∀ i, (s.leave node).colorOf i = if node = i then .black else s.colorOf i := by
    intro i
    rw [Search.leave, Search.colorOf_set, hlen]
    simp only [hbound, and_true]
    rfl
  rw [hpath, map_append, map_singleton] at hnodup hgray
  obtain ⟨hnodup, -, hdisj⟩ := nodup_append.1 hnodup
  refine ⟨⟨?_, ?_, fun i => ?_, ?_, fun i hi => ?_⟩, hp, hcolor⟩
  · simpa [Search.leave] using hlen
  · rw [hp]
    exact (isChain_append.1 (hpath ▸ hlinked)).1
  · rw [hcolor, hp]
    by_cases hi : node = i
    · rw [if_pos hi]
      constructor
      · nofun
      · intro hmem
        exact absurd hi.symm (hdisj i hmem node (mem_singleton.2 rfl))
    · rw [if_neg hi, hgray i, mem_append, mem_singleton]
      exact or_iff_left (Ne.symm hi)
  · rw [hp]
    exact hnodup
  · rw [hcolor] at hi
    split at hi
    · rename_i hni
      subst hni
      refine .intro fun j ⟨kind, hj⟩ => ?_
      exact hblack j (hdone (j, kind) hj)
    · exact hblack i hi

/-- A gray place closes the path. -/
theorem Searching.close {node dep : Nat} {clause : ClauseKind} (h : Searching file s)
    (hpath : s.path = p ++ [(node, clause)]) (hedge : (dep, clause) ∈ file.edges node)
    (hgray : s.colorOf dep = .gray) : ClosedWalk file.edges (s.close dep clause) := by
  have hsome : (s.path.findIdx? fun item => item.1 == dep).isSome := by
    rw [findIdx?_isSome, any_eq_true]
    obtain ⟨item, hitem, hdep⟩ := mem_map.1 ((h.gray dep).1 hgray)
    exact ⟨item, hitem, beq_iff_eq.2 hdep⟩
  obtain ⟨i, hi⟩ := Option.isSome_iff_exists.1 hsome
  obtain ⟨hlt, hdep, -⟩ := findIdx?_eq_some_iff_getElem.1 hi
  rw [Search.close, hi, Option.getD_some]
  refine h.linked.close (k := s.path[i].2) ?_ fun x hx => ?_
  · rw [getElem?_eq_getElem hlt, ← beq_iff_eq.1 hdep]
  · obtain rfl : (node, clause) = x := by simpa [hpath] using hx
    exact hedge

/-- The loop over the edges of the place at the end of the path. -/
theorem searchEdges_spec {visit : Nat → Search → Found}
    (hvisit : ∀ dep s, Next file fuel dep s → Outcome file s dep (visit dep s))
    {rest : List (Nat × ClauseKind)} (hrest : rest ⊆ file.edges node) (h : Searching file s)
    (hfuel : (whites file.entries.length s).card ≤ fuel) (hpath : s.path = p ++ [(node, k)]) :
    (∀ cycle s', searchEdges visit rest s = (some cycle, s') → ClosedWalk file.edges cycle) ∧
      ∀ s', searchEdges visit rest s = (none, s') → Searching file s' ∧
        (∃ k', s'.path = p ++ [(node, k')]) ∧ (∀ edge ∈ rest, s'.colorOf edge.1 = .black) ∧
        Visited s s' := by
  induction rest generalizing s k with
  | nil =>
    constructor
    · intro cycle s' heq
      cases heq
    · intro s' heq
      cases heq
      exact ⟨h, ⟨k, hpath⟩, by simp, .refl s⟩
  | cons edge rest ih =>
    obtain ⟨dep, clause⟩ := edge
    obtain ⟨hedge, hrest⟩ := cons_subset.1 hrest
    have hfollow := h.follow hpath clause
    have hpath' := Search.follow_path hpath clause
    rw [searchEdges]
    cases hcolor : (s.follow clause).colorOf dep with
    | white =>
      have hnext : Next file fuel dep (s.follow clause) := by
        refine ⟨hfollow, (leads_bound ⟨clause, hedge⟩).2, hcolor, fun x hx => ?_, hfuel⟩
        obtain rfl : (node, clause) = x := by simpa [hpath'] using hx
        exact hedge
      obtain ⟨hclosed, hdone⟩ := hvisit dep _ hnext
      rcases hv : visit dep (s.follow clause) with ⟨_ | cycle, t⟩
      · obtain ⟨ht, htpath, hblack, hvisited⟩ := hdone t hv
        obtain ⟨hc, hd⟩ := ih hrest ht (le_trans (hvisited.whites_le _) hfuel) (htpath.trans hpath')
        refine ⟨hc, fun s' heq => ?_⟩
        obtain ⟨hs', hp', hall, hvis⟩ := hd s' heq
        refine ⟨hs', hp', forall_mem_cons.2 ⟨hvis.black hblack, hall⟩, ?_⟩
        exact fun i => hvisited.trans hvis i
      · refine ⟨fun c s' heq => ?_, fun s' heq => by cases heq⟩
        cases heq
        exact hclosed cycle t hv
    | gray =>
      refine ⟨fun cycle s' heq => ?_, fun s' heq => by cases heq⟩
      cases heq
      exact hfollow.close hpath' hedge hcolor
    | black =>
      obtain ⟨hc, hd⟩ := ih hrest hfollow hfuel hpath'
      refine ⟨hc, fun s' heq => ?_⟩
      obtain ⟨hs', hp', hall, hvis⟩ := hd s' heq
      exact ⟨hs', hp', forall_mem_cons.2 ⟨hvis.black hcolor, hall⟩, hvis⟩

theorem dfs_spec (fuel node : Nat) (s : Search) (h : Next file fuel node s) :
    Outcome file s node (dfs file.scenarioName (buildIdIndex file.entries) file.entries fuel node s) := by
  induction fuel generalizing node s with
  | zero =>
    -- The place is white, so there is fuel.
    have hmem : node ∈ whites file.entries.length s :=
      Finset.mem_filter.2 ⟨Finset.mem_range.2 h.bound, h.white⟩
    have := Finset.card_pos.2 ⟨node, hmem⟩
    have := h.fuel
    omega
  | succ fuel ih =>
    obtain ⟨henter, hwhites⟩ := h.enter
    obtain ⟨hclosed, hdone⟩ := searchEdges_spec ih (List.Subset.refl (file.edges node)) henter hwhites
      (show (s.enter node).path = s.path ++ [(node, .after)] from rfl)
    rw [dfs]
    rcases hv : searchEdges (dfs file.scenarioName (buildIdIndex file.entries) file.entries fuel)
      (edgesOf file.scenarioName (buildIdIndex file.entries) file.entries node) (s.enter node) with
      ⟨_ | cycle, t⟩
    · obtain ⟨ht, ⟨k, hpath⟩, hblack, hvisited⟩ := hdone t hv
      obtain ⟨hleave, hp, hcolor⟩ := ht.leave hpath hblack
      constructor
      · intro cycle s' heq
        cases heq
      · intro s' heq
        cases heq
        refine ⟨hleave, hp, by rw [hcolor, if_pos rfl], fun i => ?_⟩
        have hi := hvisited i
        rw [h.colorOf_enter] at hi
        rw [hcolor]
        by_cases hni : node = i
        · subst hni
          exact .inr ⟨h.white, by rw [if_pos rfl]⟩
        · rw [if_neg hni] at hi ⊢
          exact hi
    · refine ⟨fun c s' heq => ?_, fun s' heq => by cases heq⟩
      cases heq
      exact hclosed cycle t hv

/-! ## The whole search -/

/-- The loop over the places to start from, with no place on the path. -/
theorem searchFrom_spec {starts : List Nat} (hstarts : ∀ i ∈ starts, i < file.entries.length)
    (h : Searching file s) (hpath : s.path = []) :
    (∀ cycle, searchFrom file.scenarioName (buildIdIndex file.entries) file.entries starts s = some cycle →
      ClosedWalk file.edges cycle) ∧
    (searchFrom file.scenarioName (buildIdIndex file.entries) file.entries starts s = none →
      ∀ i ∈ starts, Grounded (Leads file.edges) i) := by
  induction starts generalizing s with
  | nil => simp [searchFrom]
  | cons start rest ih =>
    obtain ⟨hstart, hrest⟩ := forall_mem_cons.1 hstarts
    rw [searchFrom]
    cases hcolor : s.colorOf start with
    | white =>
      have hfuel : (whites file.entries.length s).card ≤ file.entries.length :=
        (Finset.card_filter_le _ _).trans_eq (Finset.card_range _)
      have hnext : Next file file.entries.length start s :=
        ⟨h, hstart, hcolor, by simp [hpath], hfuel⟩
      obtain ⟨hclosed, hdone⟩ := dfs_spec _ _ _ hnext
      rcases hv : dfs file.scenarioName (buildIdIndex file.entries) file.entries file.entries.length
        start s with ⟨_ | cycle, t⟩
      · obtain ⟨ht, htpath, hblack, -⟩ := hdone t hv
        obtain ⟨hc, hd⟩ := ih hrest ht (htpath.trans hpath)
        exact ⟨hc, fun heq => forall_mem_cons.2 ⟨ht.black start hblack, hd heq⟩⟩
      · refine ⟨fun c heq => ?_, nofun⟩
        cases heq
        exact hclosed cycle t hv
    | gray =>
      have := (h.gray start).1 hcolor
      simp [hpath] at this
    | black =>
      obtain ⟨hc, hd⟩ := ih hrest h hpath
      exact ⟨hc, fun heq => forall_mem_cons.2 ⟨h.black start hcolor, hd heq⟩⟩

theorem searching_start (file : ExpandedFile) :
    Searching file ⟨List.replicate file.entries.length .white, []⟩ := by
  have hwhite : ∀ i, Search.colorOf ⟨replicate file.entries.length .white, []⟩ i = .white := by
    intro i
    simp only [Search.colorOf, getD_eq_getElem?_getD, getElem?_replicate]
    split <;> rfl
  refine ⟨length_replicate, .nil, fun i => ?_, nodup_nil, fun i hi => ?_⟩
  · simp [hwhite]
  · rw [hwhite] at hi
    cases hi

/-- A file with an endless walk gets a closed walk along its references. -/
theorem findCycle_spec (h : ¬ ∀ i < file.entries.length, Grounded (Leads file.edges) i) :
    ∃ walk, ClosedWalk file.edges walk ∧
      findCycle file.scenarioName (buildIdIndex file.entries) file.entries =
        walk.map fun item => (labelOf file.entries item.1, item.2) := by
  have hstarts : ∀ i ∈ range file.entries.length, i < file.entries.length := fun i =>
    mem_range.1
  obtain ⟨hclosed, hnone⟩ := searchFrom_spec hstarts (searching_start file) rfl
  rw [findCycle]
  cases hs : searchFrom file.scenarioName (buildIdIndex file.entries) file.entries
      (range file.entries.length) ⟨replicate file.entries.length .white, []⟩ with
  | none => exact absurd (fun i hi => hnone hs i (mem_range.2 hi)) h
  | some walk => exact ⟨walk, hclosed walk hs, rfl⟩

end

end Sonda.Compiler
