import Sonda.Framework.Fallible
import Sonda.Framework.Graphs
import Sonda.Impl.Compiler.References

/-!
# The graph of the references

The index finds the place of every id (`get_buildIdIndex`). `Refers` is the graph of the
`after:` and same-file `while:` references, on ids; every reference is to name an
entry (`Resolvable`), and another one than its own. This is what the checks accept
(`checkReferences_ok_iff`), and then the graph on the places that the sort and the search
walk over is that of the ids (`mem_edges_iff`, `cyclic_places_iff`).
-/

namespace Sonda.Compiler

open Framework List
open Config (Text)

variable {file : ExpandedFile} {i j : Nat} {kind : ClauseKind} {e : ExpandedEntry} {index : IdIndex}
  {entries : List ExpandedEntry} {id : Text}

/-! ## The index -/

theorem IdIndex.get_insert (index : IdIndex) (id id' : Text) (place : Nat) :
    (index.insert id place).get id' = if id = id' then some place else index.get id' :=
  value_insertKey octets_injective id id' place index

theorem buildIdIndex_concat (entries : List ExpandedEntry) (entry : ExpandedEntry) :
    buildIdIndex (entries ++ [entry]) = indexEntry (buildIdIndex entries) (entry, entries.length) := by
  rw [buildIdIndex, zipIdx_append, foldl_append]
  simp only [zipIdx_singleton, Nat.zero_add, foldl_cons, foldl_nil]
  rfl

theorem getElem?_concat_eq_some {α : Type} {l : List α} {a b : α} {i : Nat} :
    (l ++ [a])[i]? = some b ↔ l[i]? = some b ∨ i = l.length ∧ a = b := by
  rw [getElem?_append]
  split
  · constructor
    · exact .inl
    · rintro (h | ⟨rfl, -⟩)
      · exact h
      · omega
  · rw [getElem?_eq_none (l := l) (by omega), getElem?_singleton]
    split <;> simp <;> omega

/-- An id finds the place of its entry. -/
theorem get_buildIdIndex (hnd : (entries.filterMap ExpandedEntry.id).Nodup) (id : Text) (i : Nat) :
    (buildIdIndex entries).get id = some i ↔ ∃ e, entries[i]? = some e ∧ e.id = some id := by
  induction entries using reverseRecOn generalizing i with
  | nil => simp [buildIdIndex, IdIndex.get]
  | append_singleton entries entry ih =>
    rw [filterMap_append, nodup_append] at hnd
    obtain ⟨hnd, -, hdisj⟩ := hnd
    have ih := ih hnd
    simp only [getElem?_concat_eq_some]
    rw [buildIdIndex_concat, indexEntry]
    have hother (hne : entry.id ≠ some id) : (∃ e, entries[i]? = some e ∧ e.id = some id) ↔
        ∃ e, (entries[i]? = some e ∨ i = entries.length ∧ entry = e) ∧ e.id = some id := by
      constructor
      · intro ⟨e, he, hide⟩
        exact ⟨e, .inl he, hide⟩
      · rintro ⟨e, he | ⟨-, rfl⟩, hide⟩
        · exact ⟨e, he, hide⟩
        · exact absurd hide hne
    cases hid : entry.id with
    | none =>
      rw [ih]
      exact hother (by simp [hid])
    | some id' =>
      simp only [IdIndex.get_insert]
      -- No entry before this one has its id.
      have hfresh : ∀ (j : Nat) (e : ExpandedEntry), entries[j]? = some e → e.id ≠ some id' := fun j e he hide =>
        hdisj id' (mem_filterMap.2 ⟨e, mem_of_getElem? he, hide⟩) id' (by simp [hid]) rfl
      by_cases heq : id' = id
      · subst heq
        rw [if_pos rfl]
        constructor
        · intro h
          exact ⟨entry, .inr ⟨(Option.some.inj h).symm, rfl⟩, hid⟩
        · rintro ⟨e, he | ⟨rfl, rfl⟩, hide⟩
          · exact absurd hide (hfresh i e he)
          · rfl
      · rw [if_neg heq, ih]
        exact hother (by simpa [hid] using heq)

/-! ## References -/

/-- An entry with one id refers to another id, in a clause of this kind. -/
def Refers (file : ExpandedFile) (a : Text) (kind : ClauseKind) (b : Text) : Prop :=
  ∃ e ∈ file.entries, e.id = some a ∧ (b, kind) ∈ outgoingEdges e file.scenarioName

/-- Every reference names an entry. -/
def Resolvable (file : ExpandedFile) : Prop :=
  ∀ e ∈ file.entries, ∀ edge ∈ outgoingEdges e file.scenarioName, ∃ t ∈ file.entries, t.id = some edge.1

/-- Some entry refers to itself. -/
def SelfReferent (file : ExpandedFile) : Prop :=
  ∃ e ∈ file.entries, ∃ edge ∈ outgoingEdges e file.scenarioName, e.id = some edge.1

theorem resolveReference_ok_iff {refId sourceId : Text} {clause : ClauseKind} {i : Nat} :
    resolveReference refId index sourceId clause = .ok i ↔ index.get refId = some i := by
  unfold resolveReference
  cases index.get refId with
  | none =>
    dsimp only
    split <;> simp
  | some j => simp

theorem isSome_get_buildIdIndex (file : ExpandedFile) (id : Text) :
    ((buildIdIndex file.entries).get id).isSome ↔ ∃ t ∈ file.entries, t.id = some id := by
  rw [Option.isSome_iff_exists]
  simp only [get_buildIdIndex file.ids_nodup, mem_iff_getElem?]
  constructor
  · rintro ⟨i, t, ht, hid⟩
    exact ⟨t, ⟨i, ht⟩, hid⟩
  · rintro ⟨t, ⟨i, ht⟩, hid⟩
    exact ⟨i, t, ht, hid⟩

theorem checkReference_ok_iff {entry : ExpandedEntry} {edge : Text × ClauseKind} :
    checkReference index entry edge = .ok () ↔ (index.get edge.1).isSome ∧ entry.id ≠ some edge.1 := by
  unfold checkReference
  cases hr : resolveReference edge.1 index (sourceLabel entry) edge.2 with
  | error e =>
    have hnone : index.get edge.1 = none := by
      cases hget : index.get edge.1 with
      | none => rfl
      | some i =>
        rw [resolveReference_ok_iff.2 hget] at hr
        cases hr
    rw [hnone]
    refine ⟨fun h => ?_, fun h => absurd h.1 (by simp)⟩
    cases h
  | ok i =>
    rw [resolveReference_ok_iff.1 hr]
    show (if entry.id = some edge.1 then _ else _) = _ ↔ _
    split <;> simp [*]

/-- The checks accept exactly the files whose references all name another entry. -/
theorem checkReferences_ok_iff (file : ExpandedFile) :
    file.entries.forM (checkReferences file.scenarioName (buildIdIndex file.entries)) = .ok () ↔
      Resolvable file ∧ ¬ SelfReferent file := by
  simp only [checkReferences, forM_ok_iff, checkReference_ok_iff, isSome_get_buildIdIndex]
  constructor
  · intro h
    exact ⟨fun e he edge hedge => (h e he edge hedge).1,
      fun ⟨e, he, edge, hedge, hid⟩ => (h e he edge hedge).2 hid⟩
  · intro ⟨hres, hself⟩ e he edge hedge
    exact ⟨hres e he edge hedge, fun hid => hself ⟨e, he, edge, hedge, hid⟩⟩

/-! ## The graph on the places -/

/-- The edges that the sort and the search see. -/
def ExpandedFile.edges (file : ExpandedFile) : Nat → List (Nat × ClauseKind) :=
  edgesOf file.scenarioName (buildIdIndex file.entries) file.entries

theorem mem_edges_iff :
    (j, kind) ∈ file.edges i ↔ ∃ e t id, file.entries[i]? = some e ∧ file.entries[j]? = some t ∧
      t.id = some id ∧ (id, kind) ∈ outgoingEdges e file.scenarioName := by
  unfold ExpandedFile.edges edgesOf
  cases file.entries[i]? with
  | none => simp
  | some e =>
    simp only [Option.map_some, Option.getD_some, targets, mem_filterMap, Option.map_eq_some_iff,
      get_buildIdIndex file.ids_nodup]
    constructor
    · rintro ⟨⟨id, kind'⟩, hedge, j', ⟨t, ht, hid⟩, heq⟩
      cases heq
      exact ⟨e, t, id, rfl, ht, hid, hedge⟩
    · rintro ⟨e', t, id, he, ht, hid, hedge⟩
      cases he
      exact ⟨(id, kind), hedge, j, ⟨t, ht, hid⟩, rfl⟩

theorem leads_bound (h : Leads file.edges i j) :
    i < file.entries.length ∧ j < file.entries.length := by
  obtain ⟨kind, h⟩ := h
  obtain ⟨e, t, id, he, ht, -⟩ := mem_edges_iff.1 h
  exact ⟨(List.getElem?_eq_some_iff.1 he).1, (List.getElem?_eq_some_iff.1 ht).1⟩

/-- An edge between places with an id is a reference between the ids. -/
theorem refers_of_mem_edges (h : (j, kind) ∈ file.edges i) (he : file.entries[i]? = some e)
    (hid : e.id = some id) :
    ∃ t id', file.entries[j]? = some t ∧ t.id = some id' ∧ Refers file id kind id' := by
  obtain ⟨e', t, id', he', ht, hid', hedge⟩ := mem_edges_iff.1 h
  cases he.symm.trans he'
  exact ⟨t, id', ht, hid', e, mem_of_getElem? he, hid, hedge⟩

theorem labelOf_eq {i : Nat} (he : entries[i]? = some e) (hid : e.id = some id) :
    labelOf entries i = id := by
  simp [labelOf, he, sourceLabel, hid]

/-- A cycle over the places is one over the ids. -/
theorem cyclic_places_iff (hres : Resolvable file) :
    Cyclic (Leads file.edges) ↔ Cyclic fun a b => ∃ kind, Refers file a kind b := by
  constructor
  · refine Cyclic.map (labelOf file.entries) ?_
    intro i j k ⟨kind, hij⟩ ⟨kind', hjk⟩
    obtain ⟨-, t, id, -, ht, hid, -⟩ := mem_edges_iff.1 hij
    obtain ⟨u, id', hu, hid', hrefers⟩ := refers_of_mem_edges hjk ht hid
    rw [labelOf_eq ht hid, labelOf_eq hu hid']
    exact ⟨kind', hrefers⟩
  · have hget : ∀ (i : Nat) (e : ExpandedEntry) (id : Text), file.entries[i]? = some e → e.id = some id →
        (((buildIdIndex file.entries).get id).getD 0) = i := by
      intro i e id he hid
      rw [(get_buildIdIndex file.ids_nodup id i).2 ⟨e, he, hid⟩]
      rfl
    refine Cyclic.map (fun id => ((buildIdIndex file.entries).get id).getD 0) ?_
    intro a b c _ ⟨kind, e, he, hid, hedge⟩
    obtain ⟨t, ht, hid'⟩ := hres e he (c, kind) hedge
    obtain ⟨i, hi⟩ := mem_iff_getElem?.1 he
    obtain ⟨j, hj⟩ := mem_iff_getElem?.1 ht
    rw [hget i e b hi hid, hget j t c hj hid']
    exact ⟨kind, mem_edges_iff.2 ⟨e, t, c, hi, hj, hid', hedge⟩⟩

/-- Without a cycle, every place is grounded. -/
theorem cyclic_iff_not_grounded :
    Cyclic (Leads file.edges) ↔ ¬ ∀ i < file.entries.length, Grounded (Leads file.edges) i := by
  constructor
  · intro hcyc hg
    refine not_cyclic_of_grounded (fun i => ?_) hcyc
    exact .intro fun j hij => hg j (leads_bound hij).2
  · intro hg
    by_contra hcyc
    exact hg fun i _ => .of_not_cyclic (Set.finite_lt_nat file.entries.length)
      (fun a b hab => leads_bound hab) hcyc i

end Sonda.Compiler
