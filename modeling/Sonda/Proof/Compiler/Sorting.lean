import Mathlib.Data.List.Count
import Mathlib.Data.Finset.Card
import Sonda.Proof.Compiler.References

/-!
# The topological sort

`Sorting` is what the loop over the queue keeps: the in-degree of a place is the number
of its references to places that are not sorted yet, and the places with none are those
that are sorted or in the queue. One place taken off the queue keeps it (`sorting_step`),
and so the whole loop does (`sorting_run`). What comes out has every place after what it
refers to (`topologicalSort_spec`), and misses no place exactly if all are grounded
(`covers_iff_grounded`), that is, if the references have no cycle (`misses_iff_cyclic`).
-/

namespace Sonda.Compiler

open Framework List
open Config (Text)

/-! ## Relaxing the dependents of a place -/

namespace SortState

theorem relax_degree (s : SortState) (d i : Nat) :
    (s.relax d).inDegree.getD i 0 = s.inDegree.getD i 0 - [d].count i := by
  show (s.inDegree.set d (s.inDegree.getD d 0 - 1)).getD i 0 = _
  by_cases hdi : d = i
  · subst hdi
    by_cases hlt : d < s.inDegree.length
    · simp [hlt]
    · simp [hlt]
  · simp [hdi]

theorem mem_relax_queue (s : SortState) (d i : Nat) :
    i ∈ (s.relax d).queue ↔ i ∈ s.queue ∨ i = d ∧ s.inDegree.getD d 0 ≤ 1 := by
  show i ∈ (if s.inDegree.getD d 0 - 1 = 0 then s.queue ++ [d] else s.queue) ↔ _
  split
  · rw [mem_append, mem_singleton]
    exact or_congr_right (by omega)
  · constructor
    · exact .inl
    · rintro (h | h)
      · exact h
      · omega

variable (ds : List Nat) (s : SortState)

@[simp] theorem relaxAll_sorted : (ds.foldl relax s).sorted = s.sorted := by
  induction ds generalizing s with
  | nil => rfl
  | cons d ds ih => rw [foldl_cons, ih, relax]

theorem relaxAll_degree (i : Nat) :
    (ds.foldl relax s).inDegree.getD i 0 = s.inDegree.getD i 0 - ds.count i := by
  induction ds generalizing s with
  | nil => rfl
  | cons d ds ih =>
    rw [foldl_cons, ih, relax_degree, count_singleton, count_cons]
    omega

/-- The places that the last reference is taken from join the queue. -/
theorem mem_relaxAll_queue (i : Nat) :
    i ∈ (ds.foldl relax s).queue ↔ i ∈ s.queue ∨ i ∈ ds ∧ s.inDegree.getD i 0 ≤ ds.count i := by
  induction ds generalizing s with
  | nil => simp
  | cons d ds ih =>
    rw [foldl_cons, ih, mem_relax_queue, relax_degree, count_singleton, count_cons,
      mem_cons]
    have hmem : i ∉ ds → ds.count i = 0 := count_eq_zero.2
    by_cases hid : i = d
    · subst hid
      simp only [beq_self_eq_true, if_true, true_and, true_or]
      by_cases hds : i ∈ ds
      · simp only [hds, true_and]
        rw [or_assoc]
        exact or_congr_right (by omega)
      · rw [hmem hds]
        simp [hds]
    · have hdi : (d == i) = false := by simpa using Ne.symm hid
      simp [hid, hdi]

theorem nodup_relaxAll_queue (hq : s.queue.Nodup) (hdisj : ∀ i ∈ s.queue, i ∉ ds)
    (hle : ∀ i, ds.count i ≤ s.inDegree.getD i 0) : (ds.foldl relax s).queue.Nodup := by
  induction ds generalizing s with
  | nil => exact hq
  | cons d ds ih =>
    have hcount : ds.count d + 1 ≤ s.inDegree.getD d 0 := by simpa using hle d
    apply ih
    · show (if s.inDegree.getD d 0 - 1 = 0 then s.queue ++ [d] else s.queue).Nodup
      split
      · refine nodup_append.2 ⟨hq, nodup_singleton d, ?_⟩
        intro a ha b hb
        rw [mem_singleton] at hb
        subst hb
        rintro rfl
        exact hdisj a ha mem_cons_self
      · exact hq
    · intro i hi hids
      rcases (mem_relax_queue s d i).1 hi with hi | ⟨rfl, hdeg⟩
      · exact hdisj i hi (mem_cons_of_mem d hids)
      · have := count_pos_iff.2 hids
        omega
    · intro i
      have := hle i
      rw [relax_degree, count_singleton]
      rw [count_cons] at this
      omega

end SortState

/-! ## The loop -/

theorem countP_concat {l done : List Nat} {a : Nat} (ha : a ∉ done) :
    l.countP (· ∉ done ++ [a]) + l.count a = l.countP (· ∉ done) := by
  induction l with
  | nil => rfl
  | cons b l ih =>
    rw [countP_cons, countP_cons, count_cons, ← ih]
    by_cases hba : b = a
    · subst hba
      simp [ha]
      omega
    · simp [hba]
      omega

section

variable {n : Nat} {succ : Nat → List Nat}

/-- The sort of `n` places, each with the places it refers to. -/
structure Sorting (n : Nat) (succ : Nat → List Nat) (s : SortState) : Prop where
  degree : ∀ i, s.inDegree.getD i 0 = (succ i).countP (· ∉ s.sorted)
  ready : ∀ i < n, i ∈ s.sorted ++ s.queue ↔ s.inDegree.getD i 0 = 0
  nodup : (s.sorted ++ s.queue).Nodup
  bound : ∀ i ∈ s.sorted ++ s.queue, i < n
  topological : Topological (fun i j => j ∈ succ i) s.sorted

variable {deps : Nat → List (Nat × ClauseKind)}

theorem sorting_step {s : SortState} {idx : Nat} {queue : List Nat} (hn : ∀ i, n ≤ i → succ i = [])
    (hdeps : ∀ i idx, ((deps idx).map Prod.fst).count i = (succ i).count idx)
    (h : Sorting n succ s) (hq : s.queue = idx :: queue) :
    Sorting n succ (((deps idx).map Prod.fst).foldl SortState.relax
      { s with queue := queue, sorted := s.sorted ++ [idx] }) := by
  obtain ⟨hdegree, hready, hnodup, hbound, htop⟩ := h
  rw [hq] at hready hnodup hbound
  generalize hds : (deps idx).map Prod.fst = ds
  have hcount : ∀ i, ds.count i = (succ i).count idx := fun i => by rw [← hds, hdeps]
  have hidx : idx ∉ s.sorted := fun hmem =>
    (nodup_append.1 hnodup).2.2 idx hmem idx mem_cons_self rfl
  have hsplit : ∀ i, (succ i).countP (· ∉ s.sorted ++ [idx]) + ds.count i = s.inDegree.getD i 0 :=
    fun i => by rw [hcount, countP_concat hidx, hdegree]
  -- A dependent of `idx` still waits for it.
  have hwaits : ∀ i ∈ ds, i < n ∧ i ∉ s.sorted ++ idx :: queue := by
    intro i hi
    have hpos : 0 < (succ i).count idx := by
      rw [← hcount]
      exact count_pos_iff.2 hi
    have hin : i < n := by
      by_contra hge
      rw [hn i (by omega)] at hpos
      simp at hpos
    refine ⟨hin, fun hmem => ?_⟩
    have := (hready i hin).1 hmem
    have := hsplit i
    have := hcount i
    omega
  have hqueue := SortState.mem_relaxAll_queue ds { s with queue := queue, sorted := s.sorted ++ [idx] }
  refine ⟨fun i => ?_, fun i hi => ?_, ?_, fun i hi => ?_, ?_⟩
  · rw [SortState.relaxAll_degree, SortState.relaxAll_sorted]
    have := hsplit i
    show s.inDegree.getD i 0 - ds.count i = (succ i).countP (· ∉ s.sorted ++ [idx])
    omega
  · rw [SortState.relaxAll_degree, SortState.relaxAll_sorted, mem_append, hqueue]
    have hr := hready i hi
    have hmem : i ∉ ds → ds.count i = 0 := count_eq_zero.2
    simp only [mem_append, mem_cons, not_mem_nil, or_false] at hr ⊢
    by_cases hids : i ∈ ds
    · have := (hwaits i hids).2
      simp only [mem_append, mem_cons] at this
      simp only [hids, true_and]
      constructor
      · intro hmem
        have hle : s.inDegree.getD i 0 ≤ ds.count i := by tauto
        omega
      · intro hz
        exact .inr (.inr (by omega))
    · rw [hmem hids]
      simp only [hids, false_and, or_false, Nat.sub_zero]
      rw [← hr, or_assoc]
  · rw [SortState.relaxAll_sorted]
    have hq' : (s.sorted ++ [idx] ++ queue).Nodup := by simpa using hnodup
    obtain ⟨hsorted, hqueue', hdisj⟩ := nodup_append.1 hq'
    refine nodup_append.2 ⟨hsorted, ?_, ?_⟩
    · apply SortState.nodup_relaxAll_queue
      · exact hqueue'
      · intro i hi hids
        exact (hwaits i hids).2 (mem_append_right _ (mem_cons_of_mem _ hi))
      · intro i
        have := hsplit i
        show _ ≤ s.inDegree.getD i 0
        omega
    · intro a ha b hb
      rcases (hqueue b).1 hb with hb | ⟨hb, -⟩
      · exact hdisj a ha b hb
      · rintro rfl
        refine (hwaits a hb).2 ?_
        simpa using Or.imp_right Or.inl (mem_append.1 ha |>.imp_right mem_singleton.1)
  · rw [SortState.relaxAll_sorted] at hi
    rcases mem_append.1 hi with hi | hi
    · refine hbound i ?_
      simpa using Or.imp_right Or.inl (mem_append.1 hi |>.imp_right mem_singleton.1)
    · rcases (hqueue i).1 hi with hi | ⟨hi, -⟩
      · exact hbound i (mem_append_right _ (mem_cons_of_mem _ hi))
      · exact (hwaits i hi).1
  · rw [SortState.relaxAll_sorted]
    refine htop.concat fun j hj => ?_
    have hmem : idx ∈ s.sorted ++ idx :: queue := mem_append_right _ mem_cons_self
    have hzero := (hready idx (hbound idx hmem)).1 hmem
    rw [hdegree, countP_eq_zero] at hzero
    simpa using hzero j hj

/-- The whole loop: it ends with an empty queue, or has taken a place with each step. -/
theorem sorting_run {s : SortState} (hn : ∀ i, n ≤ i → succ i = [])
    (hdeps : ∀ i idx, ((deps idx).map Prod.fst).count i = (succ i).count idx)
    (h : Sorting n succ s) (fuel : Nat) :
    Sorting n succ (SortState.run deps fuel s) ∧ ((SortState.run deps fuel s).queue = [] ∨
      (SortState.run deps fuel s).sorted.length = s.sorted.length + fuel) := by
  induction fuel generalizing s with
  | zero => exact ⟨h, .inr rfl⟩
  | succ fuel ih =>
    rw [SortState.run]
    split
    · rename_i hq
      exact ⟨h, .inl hq⟩
    · rename_i idx queue hq
      obtain ⟨hs, hend⟩ := ih (sorting_step hn hdeps h hq)
      refine ⟨hs, hend.imp_right fun hlen => ?_⟩
      rw [hlen, SortState.relaxAll_sorted, length_append, length_singleton]
      omega

end

/-! ## The sort of a file -/

theorem length_le_of_bound {l : List Nat} {n : Nat} (hnd : l.Nodup) (hb : ∀ i ∈ l, i < n) :
    l.length ≤ n ∧ (n ≤ l.length → ∀ i < n, i ∈ l) := by
  have hsub : l.toFinset ⊆ Finset.range n := fun i hi =>
    Finset.mem_range.2 (hb i (mem_toFinset.1 hi))
  have hcard := toFinset_card_of_nodup hnd
  constructor
  · simpa [hcard] using Finset.card_le_card hsub
  · intro hle i hi
    have heq := Finset.eq_of_subset_of_card_le hsub (by rw [hcard, Finset.card_range]; exact hle)
    exact mem_toFinset.1 (heq ▸ Finset.mem_range.2 hi)

theorem count_references (k i idx : Nat) (l : List (Nat × ClauseKind)) :
    ((l.filterMap fun target => if target.1 = idx then some (k, target.2) else none).map Prod.fst).count i =
      if k = i then (l.map Prod.fst).count idx else 0 := by
  induction l with
  | nil => simp
  | cons target l ih =>
    by_cases ht : target.1 = idx
    · simp only [filterMap_cons, ht, if_true, map_cons, count_cons, ih]
      by_cases hk : k = i
      · simp [hk]
      · simp [hk]
    · simp [ht, ih]

/-- A place is among the dependents of another as often as it refers to it. -/
theorem count_dependents (fs : Option Text) (index : IdIndex) (entries : List ExpandedEntry) (i idx : Nat) :
    ((dependents fs index entries idx).map Prod.fst).count i =
      ((edgesOf fs index entries i).map Prod.fst).count idx := by
  induction entries using reverseRecOn with
  | nil => simp [dependents, edgesOf]
  | append_singleton entries e ih =>
    have hd : dependents fs index (entries ++ [e]) idx = dependents fs index entries idx ++
        (targets fs index e).filterMap fun target =>
          if target.1 = idx then some (entries.length, target.2) else none := by
      simp [dependents, zipIdx_append]
    rw [hd, map_append, count_append, ih, count_references]
    unfold edgesOf
    rw [getElem?_append]
    by_cases hi : i < entries.length
    · rw [if_pos hi, if_neg (by omega), Nat.add_zero]
    · rw [if_neg hi, getElem?_eq_none (l := entries) (by omega), getElem?_singleton]
      by_cases heq : entries.length = i
      · simp [heq]
      · rw [if_neg heq, if_neg (by omega)]
        simp

section

variable (file : ExpandedFile)

/-- The sort of the file. -/
def ExpandedFile.sorted (file : ExpandedFile) : List Nat :=
  topologicalSort file.scenarioName (buildIdIndex file.entries) file.entries

theorem leads_iff (i j : Nat) : Leads file.edges i j ↔ j ∈ (file.edges i).map Prod.fst := by
  simp [Leads]

theorem edges_of_le {i : Nat} (h : file.entries.length ≤ i) : file.edges i = [] := by
  simp [ExpandedFile.edges, edgesOf, getElem?_eq_none h]

theorem sorting_start :
    let inDegree := file.entries.map fun e =>
      (targets file.scenarioName (buildIdIndex file.entries) e).length
    Sorting file.entries.length (fun i => (file.edges i).map Prod.fst)
      ⟨inDegree, (List.range file.entries.length).filter fun i => inDegree.getD i 0 = 0, []⟩ := by
  intro inDegree
  have hdegree : ∀ i, inDegree.getD i 0 = (file.edges i).length := by
    intro i
    simp only [inDegree, getD_eq_getElem?_getD, getElem?_map, ExpandedFile.edges, edgesOf]
    cases file.entries[i]? <;> rfl
  refine ⟨fun i => ?_, fun i hi => ?_, ?_, fun i hi => ?_, fun p a q h => by simp at h⟩
  · rw [hdegree]
    simp
  · simp [hi]
  · exact nodup_range.filter _
  · simp at hi
    exact hi.1

/-- What the sort gives: places, each once and after what it refers to; a place it misses
refers to another that it misses. -/
theorem topologicalSort_spec : Topological (Leads file.edges) file.sorted ∧ file.sorted.Nodup ∧
      (∀ i ∈ file.sorted, i < file.entries.length) ∧
      ∀ i < file.entries.length, i ∉ file.sorted → ∃ j, Leads file.edges i j ∧ j ∉ file.sorted := by
  have hn : ∀ i, file.entries.length ≤ i → (file.edges i).map Prod.fst = [] := by
    intro i hi
    rw [edges_of_le file hi, map_nil]
  have hdeps : ∀ i idx, ((dependents file.scenarioName (buildIdIndex file.entries) file.entries idx).map
      Prod.fst).count i = ((file.edges i).map Prod.fst).count idx := count_dependents _ _ _
  obtain ⟨⟨hdegree, hready, hnodup, hbound, htop⟩, hend⟩ :=
    sorting_run hn hdeps (sorting_start file) file.entries.length
  simp only [← leads_iff] at htop
  obtain ⟨hnodup, -, -⟩ := nodup_append.1 hnodup
  have hb : ∀ i ∈ file.sorted, i < file.entries.length := fun i hi =>
    hbound i (mem_append_left _ hi)
  refine ⟨htop, hnodup, hb, fun i hi hmem => ?_⟩
  rcases hend with hend | hend
  · rw [hend, append_nil] at hready
    have hpos := mt (hready i hi).2 hmem
    rw [hdegree] at hpos
    obtain ⟨j, hj, hnot⟩ := countP_pos_iff.1 (Nat.pos_of_ne_zero hpos)
    exact ⟨j, (leads_iff file i j).2 hj, of_decide_eq_true hnot⟩
  · exact absurd ((length_le_of_bound hnodup hb).2 (by simpa using hend.ge) i hi) hmem

/-- The sort misses no place exactly if there is no endless walk. -/
theorem covers_iff_grounded : file.entries.length ≤ file.sorted.length ↔
    ∀ i < file.entries.length, Grounded (Leads file.edges) i := by
  obtain ⟨htop, hnodup, hbound, hmissed⟩ := topologicalSort_spec file
  constructor
  · intro hle i hi
    exact htop.grounded i ((length_le_of_bound hnodup hbound).2 hle i hi)
  · intro hg
    have hall : ∀ i, Grounded (Leads file.edges) i → i < file.entries.length → i ∈ file.sorted := by
      intro i hi
      induction hi with
      | intro i _ ih =>
        intro hlt
        by_contra hmem
        obtain ⟨j, hij, hj⟩ := hmissed i hlt hmem
        exact hj (ih j hij (leads_bound hij).2)
    have hsub : range file.entries.length ⊆ file.sorted := fun i hi =>
      hall i (hg i (mem_range.1 hi)) (mem_range.1 hi)
    simpa using (nodup_range.subperm hsub).length_le

/-- The sort misses a place exactly if the references have a cycle. -/
theorem misses_iff_cyclic (hres : Resolvable file) : file.sorted.length < file.entries.length ↔
    Cyclic fun a b => ∃ kind, Refers file a kind b := by
  rw [← cyclic_places_iff hres, cyclic_iff_not_grounded, ← covers_iff_grounded, Nat.not_le]

theorem resolutionOrder_eq (h : Resolvable file ∧ ¬ SelfReferent file) : resolutionOrder file =
    if file.sorted.length < file.entries.length then
      .error (.circularDependency (findCycle file.scenarioName (buildIdIndex file.entries) file.entries))
    else .ok file.sorted := by
  rw [resolutionOrder, (checkReferences_ok_iff file).2 h]
  rfl

end

end Sonda.Compiler
