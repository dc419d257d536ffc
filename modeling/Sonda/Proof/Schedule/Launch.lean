import Sonda.Impl.Schedule.MultiRunner
import Sonda.Proof.Server.GateRegistry

/-!
# A launch that fails

`launch_multi_compiled` unregisters nothing when it fails. So a failed call
leaves none of its buses behind exactly when it fails before its first
registration succeeds (`failed_launch_leaves_no_bus_iff`): a key registered
is left behind by a refusal of a later key and by a phase offset that does
not parse. `second_key_refused` is such a call.
-/

namespace Sonda.Proof.Schedule

open Sonda.Schedule Sonda.Server Sonda.Proof.Server List

variable {α τ : Type} {P : Pipeline α τ} {launch : Nat} {others : Others launch}
  {orders : Nat → List HandleId} {w : Shared}
variable {g : GatedFields} {gated : List GatedFields} {resolver : Bool} {i : Nat}
  {prepared : List (Nat × GatedFields × τ)} {ops : List LaunchOp} {ids : List String} {id : String}

/-- The registry holds a bus of the launch. -/
def HoldsBus (launch : Nat) (w : Shared) : Prop :=
  ∃ k b, w.registry.buses.lookup k = some b ∧ b.launch = launch

theorem holdsBus_act (n : Nat) : HoldsBus launch (others.act n w) ↔ HoldsBus launch w := by
  constructor <;> rintro ⟨k, b, hk, hb⟩
  · exact ⟨k, b, (others.keeps n w k b hb).mp hk, hb⟩
  · exact ⟨k, b, (others.keeps n w k b hb).mpr hk, hb⟩

/-! ## Operations that leave the buses alone -/

theorem subscribe_registry (ps : List (BusRef × HandleRef)) (w : Shared) :
    (ps.foldl (fun w p => w.subscribe p.1 p.2) w).registry = w.registry := by
  induction ps generalizing w with
  | nil => rfl
  | cons p ps ih => exact ih _

def IsRegister : LaunchOp → Prop
  | .register .. => True
  | _ => False

variable {op : LaunchOp} {order : List HandleId} {found found' : Found} {w' : Shared}

theorem exec_error {e : SondaError} (hop : ¬ IsRegister op)
    (h : op.exec launch order found w = .error e) : op = .fail e := by
  cases op with
  | register => exact absurd trivial hop
  | fail e' => cases h; rfl
  | lookup | launch | sweepPending => cases h
  | subscribe | record =>
    simp only [LaunchOp.exec] at h
    split at h <;> cases h

theorem exec_buses {es : List RegistryEvent} (hop : ¬ IsRegister op)
    (h : op.exec launch order found w = .ok (found', w', es)) :
    w'.registry.buses = w.registry.buses := by
  cases op with
  | register => exact absurd trivial hop
  | fail => cases h
  | lookup | launch => cases h; rfl
  | subscribe | record =>
    simp only [LaunchOp.exec] at h
    split at h <;> cases h <;> rfl
  | sweepPending =>
    cases h
    rw [subscribe_registry]
    exact sweepPending_buses _ _ _

/-- Without registrations the operations fail exactly where one of them is a
failure, and the launch has the buses it had. -/
theorem runOps_no_register (hops : ∀ op ∈ ops, ¬ IsRegister op) (n : Nat) (found : Found) :
    ((runOps others orders n ops found w).1.isSome ↔ ∃ e, .fail e ∈ ops) ∧
      (HoldsBus launch (runOps others orders n ops found w).2 ↔ HoldsBus launch w) := by
  induction ops generalizing n found w with
  | nil => simp [runOps]
  | cons op ops ih =>
    have hrest := fun op h => hops op (mem_cons_of_mem _ h)
    have hop := hops op mem_cons_self
    rcases hex : op.exec launch (orders n) found (others.act n w) with e | ⟨found', w', es⟩
    · obtain rfl := exec_error hop hex
      exact ⟨iff_of_true rfl ⟨e, mem_cons_self⟩, holdsBus_act n⟩
    · have hw : HoldsBus launch w' ↔ HoldsBus launch (others.act n w) := by
        rw [HoldsBus, HoldsBus, exec_buses hop hex]
      have hne : ∀ e, op ≠ .fail e := by rintro e rfl; cases hex
      obtain ⟨h₁, h₂⟩ := ih (w := w') hrest (n + 1) found'
      simp only [runOps, hex]
      refine ⟨h₁.trans ⟨fun ⟨e, h⟩ => ⟨e, mem_cons_of_mem _ h⟩, fun ⟨e, h⟩ => ⟨e, ?_⟩⟩,
        h₂.trans (hw.trans (holdsBus_act n))⟩
      exact (mem_cons.mp h).resolve_left fun h => hne e h.symm

/-! ## Registrations -/

/-- What a registration that is not refused leaves. -/
def withBus (w : Shared) (k : BusKey) (b : BusRef) : Shared :=
  { w with registry := { w.registry with buses := w.registry.buses.insert k b } }

/-- Every key is free when the launch reaches it. -/
def AllFree (others : Others launch) (name : String) : Nat → List String → Shared → Prop
  | _, [], _ => True
  | n, id :: ids, w => (name, id) ∉ (others.act n w).registry.buses ∧
    AllFree others name (n + 1) ids (withBus (others.act n w) (name, id) ⟨launch, id⟩)

theorem exec_register_free {name : String} (h : (name, id) ∉ w.registry.buses) :
    (LaunchOp.register name id).exec launch order found w =
      .ok (found, withBus w (name, id) ⟨launch, id⟩, [.registered (name, id) ⟨launch, id⟩]) := by
  simp only [LaunchOp.exec, GateBusRegistry.register, if_neg h, withBus]

theorem exec_register_taken {name : String} (h : (name, id) ∈ w.registry.buses) :
    (LaunchOp.register name id).exec launch order found w =
      .error (.config ("gate bus registry: " ++
        (RegistryError.duplicateScenarioName name).message)) := by
  simp only [LaunchOp.exec, GateBusRegistry.register, if_pos h]

theorem holdsBus_withBus (w : Shared) (k : BusKey) (id : String) :
    HoldsBus launch (withBus w k ⟨launch, id⟩) :=
  ⟨k, _, AList.lookup_insert _, rfl⟩

variable {name : String}

variable (orders) in
/-- Where every key is free the launch goes on, with a bus if there is a key. -/
theorem runOps_all_free (rest : List LaunchOp) (n : Nat) (found : Found)
    (h : AllFree others name n ids w) :
    ∃ m w', runOps others orders n (ids.map (.register name) ++ rest) found w =
        runOps others orders m rest found w' ∧ (HoldsBus launch w' ↔ HoldsBus launch w ∨ ids ≠ []) := by
  induction ids generalizing n w with
  | nil => exact ⟨n, w, rfl, by simp⟩
  | cons id ids ih =>
    obtain ⟨m, w', hrun, hw⟩ := ih (n + 1) h.2
    refine ⟨m, w', ?_, iff_of_true (hw.mpr (.inl (holdsBus_withBus _ _ _))) (.inr (by simp))⟩
    simp only [map_cons, cons_append, runOps, exec_register_free h.1]
    exact hrun

variable (orders) in
/-- Where a key is taken the launch fails, and keeps the buses it had. -/
theorem runOps_taken (rest : List LaunchOp) (n : Nat) (found : Found)
    (h : ¬ AllFree others name n ids w) :
    (runOps others orders n (ids.map (.register name) ++ rest) found w).1.isSome ∧
      (HoldsBus launch w →
        HoldsBus launch (runOps others orders n (ids.map (.register name) ++ rest) found w).2) := by
  induction ids generalizing n w with
  | nil => exact absurd trivial h
  | cons id ids ih =>
    by_cases hk : (name, id) ∈ (others.act n w).registry.buses
    · simp only [map_cons, cons_append, runOps, exec_register_taken hk]
      exact ⟨rfl, (holdsBus_act n).mpr⟩
    · simp only [map_cons, cons_append, runOps, exec_register_free hk]
      obtain ⟨herr, hw⟩ := ih (n + 1) fun hf => h ⟨hk, hf⟩
      exact ⟨herr, fun _ => hw (holdsBus_withBus _ _ _)⟩

/-! ## The other operations of a launch -/

variable {file : CompiledFile α}

/-- The phase offset of the entry, if it has one, parses. -/
def OffsetParses (P : Pipeline α τ) (g : GatedFields) : Prop :=
  ∀ s, g.phaseOffset = some s → ∃ d, P.parsePhaseOffset s = .ok d

/-- A local upstream of the entry has a bus. -/
def RefKnown (file : CompiledFile α) (g : GatedFields) : Prop :=
  ∀ clause, g.whileClause = some clause → crossScenarioTarget clause file.scenarioName = none →
    clause.refId ∈ busIds file

theorem mem_busIds {e : CompiledEntry α} (he : e ∈ file.entries) : RefKnown file e.gated := by
  intro clause hc hl
  have : clause.refId ∈ whileUpstreamIds file.entries file.scenarioName :=
    mem_filterMap.mpr ⟨e, he, by simp [show e.whileClause = some clause from hc, hl]⟩
  simp only [busIds, mem_dedup]
  split
  · exact mem_append_left _ this
  · exact this

/-- What is prepared comes from the entries of the file. -/
theorem expandGatedEntries_mem {entries : List (CompiledEntry α)}
    (h : expandGatedEntries P i entries = .ok prepared) :
    ∀ p ∈ prepared, ∃ e ∈ entries, p.2.1 = e.gated := by
  induction entries generalizing i prepared with
  | nil => cases h; simp
  | cons e es ih =>
    simp only [expandGatedEntries] at h
    rcases hx : expandGatedEntry P e with x | entry
    · rw [hx] at h; cases h
    rcases hr : expandGatedEntries P (i + 1) es with x | rest
    · rw [hx, hr] at h; cases h
    rw [hx, hr] at h
    cases h
    intro p hp
    rcases mem_append.mp hp with hp | hp
    · cases entry with
      | none => cases hp
      | some entry =>
        rw [mem_singleton.mp hp]
        exact ⟨e, mem_cons_self, rfl⟩
    · obtain ⟨e', he', heq⟩ := ih hr p hp
      exact ⟨e', mem_cons_of_mem _ he', heq⟩

theorem prepareGatedFile_mem (h : prepareGatedFile P file.entries = .ok prepared) :
    ∀ p ∈ prepared, RefKnown file p.2.1 := by
  simp only [prepareGatedFile] at h
  rcases hx : expandGatedEntries P 0 file.entries with x | prepared'
  · rw [hx] at h; cases h
  obtain rfl : prepared' = prepared := by
    rw [hx] at h
    simp only [bind, Except.bind] at h
    split at h
    · cases h
    split at h
    · cases h
    · cases h; rfl
  intro p hp
  obtain ⟨e, he, heq⟩ := expandGatedEntries_mem hx p hp
  exact heq ▸ mem_busIds he

theorem mem_registerOps {order : List String} (h : op ∈ registerOps resolver file order) :
    ∃ name id, op = .register name id := by
  simp only [registerOps] at h
  split at h
  · obtain ⟨id, -, rfl⟩ := mem_map.mp h
    exact ⟨_, id, rfl⟩
  · cases h

theorem mem_wireOps (h : op ∈ wireOps P resolver file i g) :
    (∃ up, op = .lookup i up) ∨ op = .subscribe i ∨ ∃ e, op = .fail e := by
  rcases mem_append.mp h with h | h
  · simp only [gateOps] at h
    (repeat' split at h) <;> simp only [mem_cons, not_mem_nil, or_false] at h
    · exact h.imp (fun h => ⟨_, h⟩) .inl
    · exact .inr (.inr ⟨_, h⟩)
    · exact .inr (.inr ⟨_, h⟩)
  · simp only [offsetOps] at h
    split at h <;> simp only [mem_cons, not_mem_nil, or_false] at h
    exact .inr (.inr ⟨_, h⟩)

/-- The entry launched carries the name of the file. -/
theorem mem_spawnOps (h : op ∈ spawnOps resolver file i g) :
    (∃ handle, op = .launch i handle ∧ handle.scenarioName = file.scenarioName) ∨ op = .record i := by
  rcases mem_cons.mp h with rfl | h
  · exact .inl ⟨_, rfl, rfl⟩
  · split at h
    · exact .inr (mem_singleton.mp h)
    · cases h

theorem crossScenarioTarget_of_upstream {clause : WhileClause}
    (hu : g.upstream file.scenarioName = none) (hc : g.whileClause = some clause) :
    crossScenarioTarget clause file.scenarioName = none := by
  simpa [GatedFields.upstream, hc] using hu

theorem fail_not_mem_gateOps (hr : RefKnown file g) (e : SondaError) :
    .fail e ∉ gateOps true file i g := by
  simp only [gateOps, if_true]
  split
  · simp
  · rename_i clause hu hc
    rw [if_pos (hr clause hc (crossScenarioTarget_of_upstream hu hc))]
    simp
  · simp

theorem fail_mem_offsetOps : (∃ e, .fail e ∈ offsetOps P g) ↔ ¬ OffsetParses P g := by
  simp only [offsetOps, OffsetParses]
  cases hs : g.phaseOffset with
  | none => simp
  | some s => cases hx : P.parsePhaseOffset s <;> simp [hx]

/-- Wiring an entry with a resolver fails exactly where its phase offset does
not parse. -/
theorem fail_mem_wireOps (hr : RefKnown file g) :
    (∃ e, .fail e ∈ wireOps P true file i g) ↔ ¬ OffsetParses P g := by
  simp only [wireOps, mem_append, fail_not_mem_gateOps hr, false_or, fail_mem_offsetOps]

/-! ## The whole call -/

/-- The file is prepared and its sinks are not in use. -/
def Prepared (P : Pipeline α τ) (file : CompiledFile α) (prepared : List (Nat × GatedFields × τ)) :
    Prop :=
  prepareGatedFile P file.entries = .ok prepared ∧
    P.checkRunningSinks (prepared.map fun p => p.2.2) = .ok ()

/-- Where the file is prepared and a key is to be registered, the first key is
taken, or no key is taken when the launch reaches it and every phase offset
parses. -/
def FailsBeforeKeys (P : Pipeline α τ) (others : Others launch) (resolver : Bool)
    (file : CompiledFile α) (order : List String) (w : Shared) : Prop :=
  ∀ prepared name first rest, Prepared P file prepared → resolver = true →
    file.scenarioName = some name → order = first :: rest →
    (name, first) ∈ (others.act 0 w).registry.buses ∨
      AllFree others name 0 order w ∧ ∀ p ∈ prepared, OffsetParses P p.2.1

/-- The operations after the registrations. -/
def tailOps (P : Pipeline α τ) (resolver : Bool) (file : CompiledFile α) (gated : List GatedFields) :
    List LaunchOp :=
  (gated.zipIdx.flatMap fun p => wireOps P resolver file p.2 p.1) ++
    (gated.zipIdx.flatMap fun p => spawnOps resolver file p.2 p.1) ++
    if resolver then [.sweepPending] else []

theorem not_register_tailOps : ∀ op ∈ tailOps P resolver file gated, ¬ IsRegister op := by
  intro op hop
  simp only [tailOps, mem_append, mem_flatMap] at hop
  rcases hop with (⟨p, -, hop⟩ | ⟨p, -, hop⟩) | hop
  · rcases mem_wireOps hop with ⟨_, rfl⟩ | rfl | ⟨_, rfl⟩ <;> exact id
  · rcases mem_spawnOps hop with ⟨_, rfl, -⟩ | rfl <;> exact id
  · split at hop
    · rw [mem_singleton.mp hop]; exact id
    · cases hop

theorem fail_mem_tailOps (hr : ∀ g ∈ gated, RefKnown file g) :
    (∃ e, .fail e ∈ tailOps P true file gated) ↔ ¬ ∀ g ∈ gated, OffsetParses P g := by
  have hmem {e : SondaError} : .fail e ∈ tailOps P true file gated ↔
      ∃ p ∈ gated.zipIdx, .fail e ∈ wireOps P true file p.2 p.1 := by
    simp only [tailOps, mem_append, mem_flatMap, if_true, mem_singleton,
      reduceCtorEq, or_false]
    refine ⟨fun h => h.resolve_right ?_, .inl⟩
    rintro ⟨p, -, hp⟩
    rcases mem_spawnOps hp with ⟨_, h, -⟩ | h <;> cases h
  simp only [hmem, not_forall]
  constructor
  · rintro ⟨e, p, hp, he⟩
    have hg := fst_mem_of_mem_zipIdx hp
    exact ⟨p.1, hg, (fail_mem_wireOps (hr p.1 hg)).mp ⟨e, he⟩⟩
  · rintro ⟨g, hg, ho⟩
    obtain ⟨i, hi, rfl⟩ := mem_iff_getElem.mp hg
    obtain ⟨e, he⟩ := (fail_mem_wireOps (i := i) (hr _ hg)).mpr ho
    exact ⟨e, (gated[i], i), mem_zipIdx_iff_getElem?.mpr (by simp [hi]), he⟩

/-- A call that fails leaves no bus of its own. -/
def LeavesNoBus (launch : Nat) (result : Option SondaError × Shared) : Prop :=
  result.1.isSome → ¬ HoldsBus launch result.2

theorem leavesNoBus_of_no_register (hops : ∀ op ∈ ops, ¬ IsRegister op)
    (hfresh : ¬ HoldsBus launch w) :
    LeavesNoBus launch (runOps others orders 0 ops (fun _ => none) w) :=
  fun _ h => hfresh ((runOps_no_register hops 0 _).2.mp h)

/-- The registrations and what follows them, with at least one key. -/
theorem leavesNoBus_register_iff {first : String} {rest : List String}
    (hr : ∀ g ∈ gated, RefKnown file g) (hfresh : ¬ HoldsBus launch w) :
    LeavesNoBus launch (runOps others orders 0
        ((first :: rest).map (.register name) ++ tailOps P true file gated) (fun _ => none) w) ↔
      (name, first) ∈ (others.act 0 w).registry.buses ∨
        AllFree others name 0 (first :: rest) w ∧ ∀ g ∈ gated, OffsetParses P g := by
  by_cases hk : (name, first) ∈ (others.act 0 w).registry.buses
  · refine iff_of_true (fun _ h => hfresh ?_) (.inl hk)
    simp only [map_cons, cons_append, runOps, exec_register_taken hk] at h
    exact (holdsBus_act 0).mp h
  by_cases hfree : AllFree others name 0 (first :: rest) w
  · obtain ⟨m, w', hrun, hw'⟩ := runOps_all_free orders (tailOps P true file gated) 0
      (fun _ => none) hfree
    have htail := @runOps_no_register launch others orders w' (tailOps P true file gated)
      not_register_tailOps m (fun _ => none)
    have hbus := htail.2.mpr (hw'.mpr (.inr (by simp)))
    rw [hrun, LeavesNoBus, htail.1, fail_mem_tailOps hr]
    simp [hk, hfree, hbus]
  · refine iff_of_false (fun h => ?_) (by simp [hk, hfree])
    have htaken := runOps_taken orders (tailOps P true file gated) 1 (fun _ => none)
      (show ¬ AllFree others name 1 rest (withBus (others.act 0 w) (name, first) ⟨launch, first⟩)
        from fun hf => hfree ⟨hk, hf⟩)
    simp only [map_cons, cons_append, runOps, exec_register_free hk] at h
    exact h htaken.1 (htaken.2 (holdsBus_withBus _ _ _))

/-- A file that is not prepared fails at once. -/
theorem launchOps_cases (P : Pipeline α τ) (resolver : Bool) (file : CompiledFile α)
    (order : List String) :
    (∃ e, launchOps P resolver file order = [.fail e] ∧ ∀ prepared, ¬ Prepared P file prepared) ∨
      ∃ prepared, Prepared P file prepared ∧ launchOps P resolver file order =
        registerOps resolver file order ++ tailOps P resolver file (prepared.map fun p => p.2.1) := by
  simp only [launchOps, Prepared]
  cases hp : prepareGatedFile P file.entries with
  | error e => exact .inl ⟨e, rfl, by simp⟩
  | ok prepared =>
    cases hs : P.checkRunningSinks (prepared.map fun p => p.2.2) with
    | error e => exact .inl ⟨e, by simp only [hs], by simp [hs]⟩
    | ok => exact .inr ⟨prepared, ⟨rfl, hs⟩, by
      simp [hs, preparedOps, tailOps, append_assoc]⟩

/-- A launch that fails leaves no bus of its own in the registry exactly when
it fails before a registration succeeds, or cannot fail after one. -/
theorem failed_launch_leaves_no_bus_iff {resolver : Bool} {order : List String}
    (hfresh : ¬ HoldsBus launch w) :
    LeavesNoBus launch (launchMultiCompiled P others orders resolver file order w) ↔
      FailsBeforeKeys P others resolver file order w := by
  rw [launchMultiCompiled]
  rcases launchOps_cases P resolver file order with ⟨e, hops, hno⟩ | ⟨prepared, hp, hops⟩ <;> rw [hops]
  · refine iff_of_true (leavesNoBus_of_no_register ?_ hfresh) fun prepared _ _ _ hp => ?_
    · intro op h
      rw [mem_singleton.mp h]
      exact id
    · exact absurd hp (hno prepared)
  by_cases hkeys : ∃ name first rest, resolver = true ∧ file.scenarioName = some name ∧
      order = first :: rest
  · obtain ⟨name, first, rest, rfl, hn, rfl⟩ := hkeys
    have hrefs : ∀ g ∈ prepared.map fun p => p.2.1, RefKnown file g :=
      forall_mem_map.mpr (prepareGatedFile_mem hp.1)
    rw [show registerOps true file (first :: rest) = (first :: rest).map (.register name) by
      simp [registerOps, hn], leavesNoBus_register_iff hrefs hfresh, forall_mem_map]
    constructor
    · rintro h prepared' name' first' rest' ⟨hp', -⟩ - hn' ho'
      obtain rfl := Except.ok.inj (hp.1.symm.trans hp')
      obtain rfl := Option.some.inj (hn.symm.trans hn')
      cases ho'
      exact h
    · exact fun h => h prepared name first rest hp rfl hn rfl
  · have hreg : registerOps resolver file order = [] := by
      cases resolver <;> cases hn : file.scenarioName <;> cases order <;>
        simp_all [registerOps]
    rw [hreg]
    exact iff_of_true (leavesNoBus_of_no_register not_register_tailOps hfresh)
      fun _ name first rest _ hr hn ho => absurd ⟨name, first, rest, hr, hn, ho⟩ hkeys

/-! ## A second key that is refused -/

/-- Nobody else acts. -/
def idle (launch : Nat) : Others launch := ⟨fun _ w => w, fun _ _ _ _ _ => Iff.rfl⟩

/-- The stages as they go for entries without aliases, columns to expand or
phase offsets. -/
def plainPipeline : Pipeline Unit Unit where
  translateEntry _ := .ok ()
  expandEntry e := .ok [e]
  desugarEntry := .ok
  validateFile _ := .ok ()
  validateEntry _ := .ok ()
  checkRunningSinks _ := .ok ()
  parsePhaseOffset _ := .ok none

/-- Two metrics of the scenario `web`. -/
def webFile : CompiledFile Unit where
  scenarioName := some "web"
  entries := [⟨some "cpu", "metrics", none, none, ()⟩, ⟨some "mem", "metrics", none, none, ()⟩]

/-- Launch 7 has registered the entry `id` of `web`. -/
def webTaken (id : String) : Shared where
  registry := { buses := AList.insert ("web", id) ⟨7, id⟩ ∅ }

theorem not_holdsBus_webTaken (id : String) : ¬ HoldsBus 0 (webTaken id) := by
  rintro ⟨k, b, hk, hb⟩
  have : b = ⟨7, id⟩ := by
    by_cases e : k = ("web", id)
    · subst e
      rw [webTaken, AList.lookup_insert] at hk
      exact (Option.some.inj hk).symm
    · rw [webTaken, AList.lookup_insert_ne e, AList.lookup_empty] at hk
      cases hk
  rw [this] at hb
  cases hb

/-- The first key is refused. -/
theorem failed_launch_leaves_no_bus_iff_web : ¬ HoldsBus 0 (webTaken "cpu") ∧
    (LeavesNoBus 0 (launchMultiCompiled plainPipeline (idle 0) (fun _ => []) true webFile
      ["cpu", "mem"] (webTaken "cpu")) ↔
    FailsBeforeKeys plainPipeline (idle 0) true webFile ["cpu", "mem"] (webTaken "cpu")) :=
  ⟨not_holdsBus_webTaken "cpu", failed_launch_leaves_no_bus_iff (not_holdsBus_webTaken "cpu")⟩

/-- The second key is refused: the call fails and its first bus stays. -/
theorem second_key_refused :
    ¬ LeavesNoBus 0 (launchMultiCompiled plainPipeline (idle 0) (fun _ => []) true webFile
      ["cpu", "mem"] (webTaken "mem")) := by
  intro h
  refine h (by decide) ⟨("web", "cpu"), ⟨0, "cpu"⟩, by decide, rfl⟩

end Sonda.Proof.Schedule
