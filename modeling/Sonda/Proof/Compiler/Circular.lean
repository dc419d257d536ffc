import Sonda.Impl.Compiler.CompileAfter
import Sonda.Proof.Compiler.Cycles

/-!
# Circular dependencies

Only the sort reports a circular dependency (`circular_compileAfter_iff`), when it misses
a place. For a file whose references all name another entry, this is when the graph of
the references has a cycle, and the reported list is one (`circularDependency_iff`).
-/

namespace Sonda.Compiler

open Framework
open Config (Text StdParse)

/-! ## Where the error comes from -/

def NotCircular (e : CompileAfterError) : Prop := ∀ cycle, e ≠ .circularDependency cycle

theorem checkReference_notCircular (index : IdIndex) (entry : ExpandedEntry) (edge : Text × ClauseKind) :
    Fails NotCircular (checkReference index entry edge) := by
  refine Fails.bind ?_ fun _ => ?_
  · unfold resolveReference
    split
    · exact .ok _
    · dsimp only
      split
      · exact .error (by simp [NotCircular])
      · exact .error (by simp [NotCircular])
  · split
    · exact .error (by simp [NotCircular])
    · exact .ok ()

theorem metricsGenerator_notCircular (source : ExpandedEntry) (refId : Text) (clause : ClauseKind)
    (target : ExpandedEntry) : Fails NotCircular (metricsGenerator source refId clause target) := by
  unfold metricsGenerator
  split
  · exact .ok _
  · exact .error (by simp [NotCircular])

theorem checkWhile_notCircular (file : ExpandedFile) (index : IdIndex) (entry : ExpandedEntry) :
    Fails NotCircular (checkWhile file index entry) := by
  unfold checkWhile
  split
  · exact .ok ()
  · split
    · exact .ok ()
    · split
      · exact .ok ()
      · refine Fails.bind (metricsGenerator_notCircular _ _ _ _) fun _ => ?_
        split
        · exact .ok ()
        · exact .error (by simp [NotCircular])

section

variable (std : StdParse)
variable (file : ExpandedFile) (source : ExpandedEntry) (clause : AfterClause)

theorem parseDurationSecs_notCircular (input sourceId : Text) (field : String) :
    Fails NotCircular (parseDurationSecs std input sourceId field) := by
  exact .mapError (fun _ => by simp [NotCircular]) _

theorem baseOffset_notCircular (entry : ExpandedEntry) : Fails NotCircular (baseOffset std entry) := by
  unfold baseOffset
  split
  · exact parseDurationSecs_notCircular std _ _ _
  · exact .ok 0

theorem linkCrossing_notCircular (target : ExpandedEntry) :
    Fails NotCircular (linkCrossing std source clause target) := by
  refine Fails.bind (metricsGenerator_notCircular _ _ _ _) fun generator => .mapError (fun err => ?_) _
  cases err <;> simp [timingToError, NotCircular]

theorem linkDelay_notCircular : Fails NotCircular (linkDelay std source clause) := by
  unfold linkDelay
  split
  · exact parseDurationSecs_notCircular std _ _ _
  · exact .ok 0

theorem entryOffset_notCircular (index : IdIndex) (base total : List ℚ) (idx : Nat) :
    Fails NotCircular (entryOffset std file index base total idx) := by
  unfold entryOffset
  split
  · exact .ok 0
  · split
    · exact .ok _
    · split
      · exact .ok 0
      · split
        · exact .ok 0
        · refine Fails.bind (linkCrossing_notCircular std _ _ _) fun _ => ?_
          exact Fails.bind (linkDelay_notCircular std _ _) fun _ => .ok _

theorem assignClockGroups_notCircular (entries : List ExpandedEntry) (index : IdIndex) :
    Fails NotCircular (assignClockGroups entries index) := by
  refine Fails.foldlM (fun out members => ?_) _ _
  split
  · exact .ok out
  · unfold groupName
    split
    · exact .ok _
    · exact .ok _
    · exact .error (by simp [NotCircular])

/-- A circular dependency is reported exactly if the references pass their checks and the
sort misses a place. -/
theorem circular_compileAfter_iff (cycle : List (Text × ClauseKind)) :
    compileAfter std file = .error (.circularDependency cycle) ↔
      (Resolvable file ∧ ¬ SelfReferent file) ∧ file.sorted.length < file.entries.length ∧
        cycle = findCycle file.scenarioName (buildIdIndex file.entries) file.entries := by
  have hcirc : ¬ NotCircular (.circularDependency cycle) := fun h => h cycle rfl
  have hrest : ∀ total : List ℚ, Fails NotCircular (do
      let groups ← assignClockGroups file.entries (buildIdIndex file.entries)
      .ok ((file.entries.zip (total.zip groups)).map fun item =>
        compileEntry std item.1 item.2.1 item.2.2)) := fun total =>
    Fails.bind (assignClockGroups_notCircular _ _) fun _ => .ok _
  have hsum : ∀ sorted, Fails NotCircular (do
      file.entries.forM (checkWhile file (buildIdIndex file.entries))
      let base ← file.entries.mapM (baseOffset std)
      sumOffsets std file (buildIdIndex file.entries) base sorted) := fun sorted =>
    Fails.bind (Fails.forM (checkWhile_notCircular _ _) _) fun _ =>
      Fails.bind (Fails.mapM (baseOffset_notCircular std) _) fun base =>
        Fails.foldlM (fun total idx => Fails.bind (entryOffset_notCircular std _ _ _ _ _) fun _ => .ok _) _ _
  rw [compileAfter, Fails.bind_error_iff hrest hcirc, totalOffsets, Fails.bind_error_iff hsum hcirc]
  by_cases hcheck : Resolvable file ∧ ¬ SelfReferent file
  · rw [resolutionOrder_eq file hcheck]
    split
    · rename_i hlt
      constructor
      · intro h
        cases h
        exact ⟨hcheck, hlt, rfl⟩
      · intro h
        rw [h.2.2]
    · rename_i hlt
      constructor
      · nofun
      · intro h
        exact absurd h.2.1 hlt
  · constructor
    · intro h
      have hfails := Fails.forM (fun entry => Fails.forM (checkReference_notCircular
        (buildIdIndex file.entries) entry) (outgoingEdges entry file.scenarioName)) file.entries
      rw [← checkReferences_ok_iff] at hcheck
      rw [resolutionOrder] at h
      cases hx : file.entries.forM (checkReferences file.scenarioName (buildIdIndex file.entries)) with
      | error e =>
        rw [hx] at h
        have he : e = .circularDependency cycle := Except.error.inj h
        exact absurd (he ▸ hfails e hx) hcirc
      | ok u => exact absurd hx hcheck
    · intro h
      exact absurd h.1 hcheck

end

/-! ## Reported cycles -/

/-- A closed list of ids, each with the kind of its reference to the next one. -/
structure ReportedCycle (file : ExpandedFile) (cycle : List (Text × ClauseKind)) : Prop where
  refers : cycle.IsChain fun a b => Refers file a.1 a.2 b.1
  nontrivial : 2 ≤ cycle.length
  closed : cycle.head?.map Prod.fst = cycle.getLast?.map Prod.fst

/-- A closed walk over the places, in ids. -/
theorem ClosedWalk.reported {file : ExpandedFile} {walk : List (Nat × ClauseKind)}
    (h : ClosedWalk file.edges walk) :
    ReportedCycle file (walk.map fun item => (labelOf file.entries item.1, item.2)) := by
  refine ⟨(List.isChain_map _).2 (h.linked.imp_of_mem_imp fun a b ha _ hab => ?_), ?_, ?_⟩
  · obtain ⟨y, -, hy⟩ := h.entered ha
    obtain ⟨-, e, id, -, he, hid, -⟩ := mem_edges_iff.1 hy
    obtain ⟨t, id', ht, hid', hrefers⟩ := refers_of_mem_edges hab he hid
    rw [labelOf_eq he hid, labelOf_eq ht hid']
    exact hrefers
  · rw [List.length_map]
    exact h.nontrivial
  · have hclosed := congrArg (Option.map (labelOf file.entries)) h.closed
    simpa [List.head?_map, List.getLast?_map, Function.comp_def] using hclosed

/-- A circular dependency is reported exactly if every reference names an entry, none
refers to itself, and the graph of the references has a cycle. The report is a cycle of
that graph, and never the unknown one. -/
theorem circularDependency_iff (std : StdParse) (file : ExpandedFile) :
    ((∃ cycle, compileAfter std file = .error (.circularDependency cycle)) ↔
      Resolvable file ∧ ¬ SelfReferent file ∧ Cyclic fun a b => ∃ kind, Refers file a kind b) ∧
    ∀ cycle, compileAfter std file = .error (.circularDependency cycle) →
      ReportedCycle file cycle ∧ cycle ≠ [(unknownCycle, .after)] := by
  simp only [circular_compileAfter_iff]
  constructor
  · constructor
    · rintro ⟨cycle, ⟨hres, hself⟩, hlt, -⟩
      exact ⟨hres, hself, (misses_iff_cyclic file hres).1 hlt⟩
    · rintro ⟨hres, hself, hcyc⟩
      exact ⟨_, ⟨hres, hself⟩, (misses_iff_cyclic file hres).2 hcyc, rfl⟩
  · rintro cycle ⟨-, hlt, hcycle⟩
    obtain ⟨walk, hwalk, hfind⟩ := findCycle_spec (mt (covers_iff_grounded file).2 (Nat.not_le.2 hlt))
    rw [hcycle, hfind]
    refine ⟨ClosedWalk.reported hwalk, fun heq => ?_⟩
    have hlen := congrArg List.length heq
    have := hwalk.nontrivial
    simp at hlen
    omega

/-- One entry that starts after itself. -/
def loopFile : ExpandedFile where
  scenarioName := none
  entries := [⟨some [0x61], .metrics, [0x6d], 1, some (.constant 1), none, none,
    some ⟨[0x61], .greaterThan, 0, none⟩, none, fun _ => rfl⟩]
  ids_nodup := by decide

/-- The graph of this file has a cycle, and the report is another. -/
theorem circularDependency_self : (Cyclic fun a b => ∃ kind, Refers loopFile a kind b) ∧
    ∀ std cycle, compileAfter std loopFile ≠ .error (.circularDependency cycle) := by
  refine ⟨⟨[0x61], .single ⟨.after, _, List.mem_cons_self, rfl, List.mem_cons_self⟩⟩, ?_⟩
  intro std cycle h
  cases h

end Sonda.Compiler
