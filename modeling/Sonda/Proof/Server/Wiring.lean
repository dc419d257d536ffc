import Sonda.Proof.Server.Scenarios

/-!
# How the operations of a thread follow each other

`Wired` is what the records of downstreams need of the order of a thread's
operations: a bus looked up is subscribed to before the handle is recorded, a
handle with an upstream is recorded after its launch, buses are retired right
before their subscribers are requeued, and an operation that may end the
thread comes before every launch. Every thread has it (`wired_admitCompiled`,
`wired_of_end`) and keeps it, since an operation ends its thread only where
the launches are still to come (`todo_exec`).
-/

namespace Sonda.Proof.Server

open Sonda.Server Sonda.Schedule Framework Sonda.Proof.Schedule List

variable {α τ : Type} {P : Pipeline α τ} {es : List RegistryEvent} {s s' : AppState}
  {ys xs rest : List Op} {op : Op} {inp : OpInput} {t t' : Thread}

/-- Every handle to be recorded is still to be launched. -/
def Ready (todo : List Op) : Prop :=
  ∀ i, .launch (.record i) ∈ todo → ∃ handle, .launch (.launch i handle) ∈ todo

/-- What an operation has after it. -/
def OpWired (rest : List Op) : Op → Prop
  | .launch (.lookup i _) => .launch (.subscribe i) ∈ rest
  | .launch (.launch i handle) => handle.id = .given handle.entryId ∧
    (handle.upstream.isSome = true → .launch (.record i) ∈ rest)
  | .launch (.record i) => .launch (.subscribe i) ∉ rest
  | .retireBuses .. => rest = [.requeueSubscribers]
  -- the operations that may end the thread
  | .conflicts _ | .scenarioNameInUse _ | .preflight | .launch (.register ..) | .launch (.fail _)
  | .rejectEmpty | .claim _ | .removeRow _ => Ready rest
  | .launch (.subscribe _) | .launch .sweepPending | .renamePending _ | .renameSubscribers _
  | .insertRows _ | .finish _ | .requeueSubscribers => True

def Wired : List Op → Prop
  | [] => True
  | op :: rest => OpWired rest op ∧ Wired rest

/-- An operation ends its thread only before the launches. -/
theorem todo_exec (hw : OpWired rest op) (h : op.exec inp s { t with todo := rest } = (s', t', es)) :
    t'.todo = rest ∨ t'.todo = [] ∧ Ready rest := by
  cases op with
  | launch lop =>
    simp only [Op.exec] at h
    split at h
    · rename_i herr
      cases h
      cases lop with
      | register | fail => exact .inr ⟨rfl, hw⟩
      | lookup | launch | sweepPending => cases herr
      | subscribe | record =>
        simp only [LaunchOp.exec] at herr
        split at herr <;> cases herr
    · cases h; exact .inl rfl
  | conflicts | scenarioNameInUse | preflight | rejectEmpty | claim | removeRow =>
    simp only [Op.exec] at h
    (repeat' split at h) <;> cases h <;> first | exact .inl rfl | exact .inr ⟨rfl, hw⟩
  | insertRows | retireBuses | requeueSubscribers => cases h; exact .inl rfl
  | renamePending | renameSubscribers | finish =>
    simp only [Op.exec] at h
    split at h <;> cases h <;> exact .inl rfl

theorem wired_exec (hw : Wired (op :: rest))
    (h : op.exec inp s { t with todo := rest } = (s', t', es)) : Wired t'.todo := by
  rcases todo_exec hw.1 h with hr | ⟨hr, -⟩ <;> rw [hr]
  · exact hw.2
  · trivial

/-! ## Endings -/

theorem wired_of_end {x : HandleRef} {handle : ScenarioHandle}
    (ht : t = dropStateGuard x handle ∨ t = deleteScenario x handle) : Wired t.todo := by
  rcases ht with rfl | rfl <;>
    simp only [dropStateGuard, deleteScenario, unregisterOps] <;>
    cases handle.scenarioName <;>
    simp [Wired, OpWired, Ready]

/-! ## POSTs -/

/-- The operation needs nothing after it but launches before their records. -/
def Plain (op : Op) : Prop :=
  (∀ rest, Ready rest → OpWired rest op) ∧ ∀ i, op ≠ .launch (.record i)

theorem ready_append (hx : ∀ i, .launch (.record i) ∉ xs) (hr : Ready ys) : Ready (xs ++ ys) := by
  intro i hi
  rcases mem_append.mp hi with hi | hi
  · exact absurd hi (hx i)
  · obtain ⟨handle, hm⟩ := hr i hi
    exact ⟨handle, mem_append_right xs hm⟩

theorem wired_append (hx : ∀ op ∈ xs, Plain op) (hy : Wired ys) (hr : Ready ys) :
    Wired (xs ++ ys) ∧ Ready (xs ++ ys) := by
  induction xs with
  | nil => exact ⟨hy, hr⟩
  | cons op xs ih =>
    obtain ⟨hw, hr'⟩ := ih fun op h => hx op (mem_cons_of_mem _ h)
    obtain ⟨hp, hne⟩ := hx op mem_cons_self
    have hnot (i : Nat) : .launch (.record i) ∉ [op] :=
      fun hi => hne i (mem_singleton.mp hi).symm
    exact ⟨⟨hp _ hr', hw⟩, (ready_append hnot hr' : Ready ([op] ++ (xs ++ ys)))⟩

theorem wired_of_plain (hx : ∀ op ∈ xs, Plain op) : Wired xs ∧ Ready xs := by
  simpa using wired_append hx (show Wired [] from trivial) nofun

variable {file : CompiledFile α}

/-- The operations that wire a gate, in front of others. -/
theorem wired_wireOps (index : Nat) (g : GatedFields) (hy : Wired ys) (hr : Ready ys) :
    Wired ((wireOps P true file index g).map .launch ++ ys) ∧
      Ready ((wireOps P true file index g).map .launch ++ ys) := by
  have hoffset : ∀ op ∈ (offsetOps P g).map Op.launch, Plain op := by
    intro op hop
    obtain ⟨lop, hl, rfl⟩ := mem_map.mp hop
    simp only [offsetOps] at hl
    split at hl <;> simp only [mem_cons, not_mem_nil, or_false] at hl
    subst hl
    exact ⟨fun _ => id, by simp⟩
  obtain ⟨hw, hr⟩ := wired_append hoffset hy hr
  rw [wireOps, map_append, append_assoc]
  simp only [gateOps]
  split
  · exact ⟨⟨mem_cons_self, trivial, hw⟩, ready_append (by simp) hr⟩
  · split
    · exact ⟨hw, hr⟩
    · refine wired_append (fun op hop => ?_) hw hr
      rw [mem_singleton.mp hop]
      exact ⟨fun _ => id, by simp⟩
  · exact ⟨hw, hr⟩

/-- The operations that start an entry, in front of others. -/
theorem wired_spawnOps (index : Nat) (g : GatedFields) (hy : Wired ys) (hr : Ready ys)
    (hs : ∀ i, .launch (.subscribe i) ∉ ys) :
    Wired ((spawnOps true file index g).map .launch ++ ys) ∧
      Ready ((spawnOps true file index g).map .launch ++ ys) ∧
      ∀ i, .launch (.subscribe i) ∉ (spawnOps true file index g).map .launch ++ ys := by
  simp only [spawnOps, Bool.true_and]
  split
  · refine ⟨⟨⟨rfl, fun _ => by simp⟩, hs index, hy⟩, fun i hi => ?_, by simpa using hs⟩
    simp only [map_cons, map_nil, cons_append, nil_append, mem_cons] at hi
    rcases hi with hi | hi | hi
    · cases hi
    · cases hi
      exact ⟨_, mem_cons_self⟩
    · obtain ⟨handle, hm⟩ := hr i hi
      exact ⟨handle, mem_append_right _ hm⟩
  · rename_i hup
    exact ⟨⟨⟨rfl, fun h => absurd h hup⟩, hy⟩, ready_append (by simp) hr, by simpa using hs⟩

theorem wired_flatMap_wireOps (ps : List (GatedFields × Nat)) (hy : Wired ys) (hr : Ready ys) :
    Wired ((ps.flatMap fun p => wireOps P true file p.2 p.1).map .launch ++ ys) ∧
      Ready ((ps.flatMap fun p => wireOps P true file p.2 p.1).map .launch ++ ys) := by
  induction ps with
  | nil => exact ⟨hy, hr⟩
  | cons p ps ih =>
    rw [flatMap_cons, map_append, append_assoc]
    exact wired_wireOps p.2 p.1 ih.1 ih.2

theorem wired_flatMap_spawnOps (ps : List (GatedFields × Nat)) (hy : Wired ys) (hr : Ready ys)
    (hs : ∀ i, .launch (.subscribe i) ∉ ys) :
    Wired ((ps.flatMap fun p => spawnOps true file p.2 p.1).map .launch ++ ys) ∧
      Ready ((ps.flatMap fun p => spawnOps true file p.2 p.1).map .launch ++ ys) ∧
      ∀ i, .launch (.subscribe i) ∉
        (ps.flatMap fun p => spawnOps true file p.2 p.1).map .launch ++ ys := by
  induction ps with
  | nil => exact ⟨hy, hr, hs⟩
  | cons p ps ih =>
    rw [flatMap_cons, map_append, append_assoc]
    exact wired_spawnOps p.2 p.1 ih.1 ih.2.1 ih.2.2

theorem plain_adoptOps (hs : List HandleRef) : ∀ op ∈ adoptOps hs, Plain op := by
  intro op hop
  rcases mem_adoptOps hop with rfl | ⟨_, rfl | rfl⟩ | rfl
  · exact ⟨fun _ => id, by simp⟩
  all_goals exact ⟨fun _ _ => trivial, by simp⟩

/-- The operations of a launch, in front of what follows it. -/
theorem wired_launchOps (file : CompiledFile α) (order : List String) (hs : List HandleRef) :
    Wired ((launchOps P true file order).map .launch ++ adoptOps hs) ∧
      Ready ((launchOps P true file order).map .launch ++ adoptOps hs) := by
  rcases launchOps_cases P true file order with ⟨e, heq, -⟩ | ⟨prepared, -, heq⟩ <;> rw [heq]
  · exact wired_of_plain (forall_mem_cons.mpr ⟨⟨fun _ => id, by simp⟩, plain_adoptOps hs⟩)
  -- the sweep and what follows it
  have hend : ∀ op ∈ Op.launch .sweepPending :: adoptOps hs, Plain op :=
    forall_mem_cons.mpr ⟨⟨fun _ _ => trivial, by simp⟩, plain_adoptOps hs⟩
  have hnone (i : Nat) : .launch (.subscribe i) ∉ Op.launch .sweepPending :: adoptOps hs := by
    intro h
    rcases mem_cons.mp h with h | h
    · cases h
    · rcases mem_adoptOps h with h | ⟨_, h | h⟩ | h <;> cases h
  have hreg : ∀ op ∈ (registerOps true file order).map Op.launch, Plain op := by
    intro op hop
    obtain ⟨lop, hl, rfl⟩ := mem_map.mp hop
    obtain ⟨_, _, rfl⟩ := mem_registerOps hl
    exact ⟨fun _ h => h, by simp⟩
  obtain ⟨hw, hr⟩ := wired_of_plain hend
  obtain ⟨hw, hr, -⟩ := wired_flatMap_spawnOps (prepared.map fun p => p.2.1).zipIdx hw hr hnone
  obtain ⟨hw, hr⟩ := wired_flatMap_wireOps (P := P) (prepared.map fun p => p.2.1).zipIdx hw hr
  have := wired_append hreg hw hr
  simpa only [tailOps, if_true, map_append, append_assoc, map_cons, map_nil,
    cons_append, nil_append] using this

theorem wired_admitCompiled (n : Nat) (file : CompiledFile α) (order : List String) :
    Wired (admitCompiled P n file order).todo := by
  have hcheck : ∀ op ∈ checkOps file.scenarioName ++ [.preflight], Plain op := by
    intro op hop
    rcases mem_append.mp hop with hop | hop
    · rcases mem_checkOps hop with ⟨_, _, rfl⟩ | ⟨_, rfl⟩ <;> exact ⟨fun _ => id, by simp⟩
    · rw [mem_singleton.mp hop]
      exact ⟨fun _ => id, by simp⟩
  obtain ⟨hw, hr⟩ := wired_launchOps (P := P) file order (launched n (launchOps P true file order))
  have := (wired_append hcheck hw hr).1
  rwa [← append_assoc] at this

end Sonda.Proof.Server
