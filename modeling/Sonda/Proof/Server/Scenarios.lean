import Sonda.Impl.Server.Scenarios
import Sonda.Proof.Schedule.Launch

/-!
# Steps of the server

`Steps` is the inversion of a step of the server: a thread is started, a task
writes its state or loses its stats, or a thread does its next operation.
`Fresh` holds in every run: each handle is launched once, under a reference
that no other thread will use.
-/

namespace Sonda.Proof.Server

open Sonda.Server Sonda.Schedule Framework Sonda.Proof.Schedule List

variable {α τ : Type} {P : Pipeline α τ}
variable {sv sv' : ServerState} {h : HandleRef} {a : ServerAct α} {handle : ScenarioHandle}
  {w w' : Shared} {file : CompiledFile α} {found : Found} {lop : LaunchOp} {rest : List Op}
  {order : List String} {handle' : ScenarioHandle} {u : Thread}

inductive Steps (P : Pipeline α τ) (sv : ServerState) :
    ServerAct α → ServerState → List RegistryEvent → Prop
  | post {file : CompiledFile α} {order : List String} :
      Steps P sv (.post file order) (sv.spawn (admitCompiled P sv.threads.length file order)) []
  | transition {h : HandleRef} {handle : ScenarioHandle} {state : ScenarioState}
      (hh : sv.handles.lookup h = some handle) (hf : handle.state ≠ .finished) :
      Steps P sv (.transition h state)
        { sv with toAppState := sv.setHandle h { handle with state } } []
  | finish {h : HandleRef} {handle : ScenarioHandle} (hh : sv.handles.lookup h = some handle) :
      Steps P sv (.finish h)
        (({ sv with toAppState := sv.setHandle h { handle with ending := true } } :
          ServerState).spawn (dropStateGuard h handle)) []
  | delete {h : HandleRef} {handle : ScenarioHandle} (hh : sv.handles.lookup h = some handle) :
      Steps P sv (.delete h) (sv.spawn (deleteScenario h handle)) []
  | drop {h : HandleRef} : Steps P sv (.drop h) { sv with dropped := h :: sv.dropped } []
  | op {i : Nat} {t t' : Thread} {op : Op} {rest : List Op} {inp : OpInput} {s : AppState}
      {es : List RegistryEvent} (ht : sv.threads[i]? = some t) (htodo : t.todo = op :: rest)
      (ha : op.allows inp sv.toAppState = true)
      (hex : op.exec inp sv.toAppState { t with todo := rest } = (s, t', es)) :
      Steps P sv (.step i inp) ⟨s, sv.threads.set i t'⟩ es

theorem steps_of_step {es : List RegistryEvent} (h : serverStep P sv a = some (sv', es)) :
    Steps P sv a sv' es := by
  cases a with
  | post file order =>
    simp only [serverStep] at h
    split at h <;> cases h
    exact .post
  | transition x state =>
    obtain ⟨handle, hh, h⟩ := Option.bind_eq_some_iff.mp h
    split at h <;> cases h
    rename_i hn
    exact .transition hh fun hf => hn (by simp [hf])
  | finish x =>
    obtain ⟨handle, hh, h⟩ := Option.bind_eq_some_iff.mp h
    split at h <;> cases h
    exact .finish hh
  | delete x =>
    obtain ⟨handle, hh, h⟩ := Option.map_eq_some_iff.mp h
    cases h
    exact .delete hh
  | drop x => cases h; exact .drop
  | step i inp =>
    obtain ⟨t, ht, h⟩ := Option.bind_eq_some_iff.mp h
    split at h
    · cases h
    · rename_i op rest htodo
      split at h <;> cases h
      rename_i ha
      exact .op ht htodo ha rfl

/-! ## What an operation leaves alone -/

variable {inp : OpInput} {s s' : AppState} {t t' : Thread} {op : Op} {es : List RegistryEvent}

/-- An operation leaves the rest of its thread, or ends it. -/
theorem exec_thread (h : op.exec inp s t = (s', t', es)) :
    t'.launch = t.launch ∧ t'.scenarioName = t.scenarioName ∧ (t'.todo = t.todo ∨ t'.todo = []) := by
  cases op <;> simp only [Op.exec] at h <;> (repeat' split at h) <;> cases h <;>
    first
      | exact ⟨rfl, rfl, .inl rfl⟩
      | exact ⟨rfl, rfl, .inr rfl⟩

theorem subscribe_handles (ps : List (BusRef × HandleRef)) (w : Shared) :
    (ps.foldl (fun w p => w.subscribe p.1 p.2) w).handles = w.handles := by
  induction ps generalizing w with
  | nil => rfl
  | cons p ps ih => exact ih _

theorem launchOp_handles {launch : Nat} {order : List HandleId} {found' : Found}
    (h : lop.exec launch order found w = .ok (found', w', es)) :
    w'.handles = w.handles ∨ ∃ index handle, lop = .launch index handle ∧
        w'.handles = w.handles.insert ⟨launch, index⟩ handle := by
  cases lop <;> simp only [LaunchOp.exec] at h <;> (repeat' split at h) <;> cases h <;>
    first
      | exact .inl rfl
      | exact .inr ⟨_, _, rfl, rfl⟩
      | exact .inl (subscribe_handles _ _)

/-! ## Handles -/

/-- `handle'` is the handle `h` at a later time. -/
structure Later (h : HandleRef) (handle handle' : ScenarioHandle) : Prop where
  scenarioName : handle'.scenarioName = handle.scenarioName
  entryId : handle'.entryId = handle.entryId
  upstream : handle'.upstream = handle.upstream
  cleanedUp : handle.cleanedUp = true → handle'.cleanedUp = true
  finished : handle.state = .finished → handle'.state = .finished
  id : handle'.id = handle.id ∨ handle'.id = .fresh h

theorem Later.refl (h : HandleRef) (handle : ScenarioHandle) : Later h handle handle :=
  ⟨rfl, rfl, rfl, fun h => h, fun h => h, .inl rfl⟩

theorem Later.key {handle : ScenarioHandle} (hl : Later h handle handle') :
    handle'.key = handle.key := by
  simp [ScenarioHandle.key, hl.scenarioName, hl.entryId]

theorem Later.uncleaned {handle : ScenarioHandle} (hl : Later h handle handle')
    (hc : handle'.cleanedUp = false) : handle.cleanedUp = false := by
  by_contra hn
  rw [hl.cleanedUp (by simpa using hn)] at hc
  cases hc

/-- The handles are the same, at a later time. -/
def Kept (w w' : Shared) : Prop :=
  ∀ h, w.handles.lookup h = none ∧ w'.handles.lookup h = none ∨
    ∃ handle handle', w.handles.lookup h = some handle ∧ w'.handles.lookup h = some handle' ∧
      Later h handle handle'

theorem kept_of_eq (he : w'.handles = w.handles) : Kept w w' := by
  intro h
  rw [he]
  cases hl : w.handles.lookup h with
  | none => exact .inl ⟨rfl, rfl⟩
  | some handle => exact .inr ⟨handle, handle, rfl, rfl, .refl h handle⟩

theorem kept_insert {handle : ScenarioHandle} (hh : w.handles.lookup h = some handle)
    (he : w'.handles = w.handles.insert h handle') (hl : Later h handle handle') : Kept w w' := by
  intro x
  rw [he]
  by_cases hx : x = h
  · subst hx
    exact .inr ⟨handle, handle', hh, AList.lookup_insert _, hl⟩
  · rw [AList.lookup_insert_ne hx]
    exact kept_of_eq rfl x

/-- A task writes its state. -/
theorem kept_state {s : AppState} {state : ScenarioState} (hh : s.handles.lookup h = some handle)
    (hf : handle.state ≠ .finished) :
    Kept s.toShared (s.setHandle h { handle with state }).toShared :=
  kept_insert hh rfl ⟨rfl, rfl, rfl, id, fun h => absurd h hf, .inl rfl⟩

/-- A task begins to end. -/
theorem kept_ending {s : AppState} (hh : s.handles.lookup h = some handle) :
    Kept s.toShared (s.setHandle h { handle with ending := true }).toShared :=
  kept_insert hh rfl ⟨rfl, rfl, rfl, id, id, .inl rfl⟩

theorem Kept.lookup (hk : Kept w w') (hh : w'.handles.lookup h = some handle') :
    ∃ handle, w.handles.lookup h = some handle ∧ Later h handle handle' := by
  rcases hk h with ⟨-, hn⟩ | ⟨handle, handle'', ho, hn, hl⟩
  · rw [hh] at hn; cases hn
  · rw [hh] at hn; cases hn; exact ⟨handle, ho, hl⟩

theorem Kept.later (hk : Kept w w') (hh : w.handles.lookup h = some handle) :
    ∃ handle', w'.handles.lookup h = some handle' ∧ Later h handle handle' := by
  rcases hk h with ⟨hn, -⟩ | ⟨_, handle', ho, hn, hl⟩
  · rw [hh] at hn; cases hn
  · rw [hh] at ho; cases ho; exact ⟨handle', hn, hl⟩

theorem Kept.mem_iff (hk : Kept w w') : h ∈ w'.handles ↔ h ∈ w.handles := by
  rw [← AList.lookup_isSome, ← AList.lookup_isSome]
  rcases hk h with ⟨ho, hn⟩ | ⟨handle, handle', ho, hn, -⟩ <;> simp [ho, hn]

/-- An operation launches a handle, or keeps the handles. -/
theorem exec_handles (h : op.exec inp s t = (s', t', es)) :
    (∃ index handle, op = .launch (.launch index handle) ∧
      s'.handles = s.handles.insert ⟨t.launch, index⟩ handle) ∨ Kept s.toShared s'.toShared := by
  cases op with
  | launch lop =>
    simp only [Op.exec] at h
    split at h
    · cases h; exact .inr (kept_of_eq rfl)
    · rename_i hex
      cases h
      rcases launchOp_handles hex with he | ⟨index, handle, rfl, he⟩
      · exact .inr (kept_of_eq he)
      · exact .inl ⟨index, handle, rfl, he⟩
  | conflicts | scenarioNameInUse | preflight | rejectEmpty | insertRows | requeueSubscribers
  | retireBuses => cases h; exact .inr (kept_of_eq rfl)
  | renamePending x =>
    simp only [Op.exec] at h
    split at h <;> cases h <;> exact .inr (kept_of_eq rfl)
  | renameSubscribers x =>
    simp only [Op.exec] at h
    split at h <;> cases h
    · exact .inr (kept_of_eq rfl)
    · rename_i hh
      exact .inr (kept_insert hh rfl ⟨rfl, rfl, rfl, id, id, .inr rfl⟩)
  | finish x =>
    simp only [Op.exec] at h
    split at h <;> cases h
    · exact .inr (kept_of_eq rfl)
    · rename_i hh
      exact .inr (kept_insert hh rfl ⟨rfl, rfl, rfl, id, fun _ => rfl, .inl rfl⟩)
  | claim x | removeRow x =>
    simp only [Op.exec] at h
    split at h
    · cases h; exact .inr (kept_of_eq rfl)
    · rename_i hh
      split at h <;> cases h
      all_goals first
        | exact .inr (kept_of_eq rfl)
        | exact .inr (kept_insert hh rfl ⟨rfl, rfl, rfl, fun _ => rfl, id, .inl rfl⟩)

/-! ## Buses -/

/-- An operation registers a bus, retires the bus of a key, or leaves the
buses alone. -/
inductive BusesAfter (s : AppState) (t : Thread) (s' : AppState) : Op → List RegistryEvent → Prop
  | same {op : Op} (h : s'.registry.buses = s.registry.buses) : BusesAfter s t s' op []
  | registered {name id : String} (hfree : (name, id) ∉ s.registry.buses)
      (h : s'.registry.buses = s.registry.buses.insert (name, id) ⟨t.launch, id⟩) :
      BusesAfter s t s' (.launch (.register name id)) [.registered (name, id) ⟨t.launch, id⟩]
  | retired {x : HandleRef} {name id : String} {es : List RegistryEvent}
      (h : ∀ k, s'.registry.buses.lookup k =
        if k = (name, id) then none else s.registry.buses.lookup k)
      (hes : ∀ e ∈ es, ∃ b, e = .retired x (name, id) b ∧
        s.registry.buses.lookup (name, id) = some b) :
      BusesAfter s t s' (.retireBuses x name id) es

theorem launchOp_buses {w : Shared}
    (h : lop.exec t.launch inp.order t.found s.toShared = .ok (found, w, es)) :
    BusesAfter s t { s with toShared := w } (.launch lop) es := by
  cases lop with
  | register name id =>
    simp only [LaunchOp.exec] at h
    split at h
    · cases h
    · rename_i hr
      obtain ⟨hfree, rfl⟩ := register_cases _ hr
      cases h
      exact .registered hfree rfl
  | fail => cases h
  | lookup | launch => cases h; exact .same rfl
  | subscribe | record =>
    simp only [LaunchOp.exec] at h
    split at h <;> cases h <;> exact .same rfl
  | sweepPending =>
    cases h
    exact .same ((congrArg GateBusRegistry.buses (subscribe_registry _ _)).trans
      (sweepPending_buses _ _ _))

theorem busesAfter_exec (h : op.exec inp s t = (s', t', es)) : BusesAfter s t s' op es := by
  cases op with
  | launch lop =>
    simp only [Op.exec] at h
    split at h
    · cases h; exact .same rfl
    · rename_i hex
      cases h
      exact launchOp_buses hex
  | retireBuses x name id =>
    cases h
    refine .retired (lookup_retireBuses _ name id) fun e he => ?_
    obtain ⟨⟨k, b⟩, hp, rfl⟩ := mem_map.mp he
    obtain ⟨rfl, hb⟩ := (mem_retired _ _ _ _ _).mp hp
    exact ⟨b, rfl, hb⟩
  | requeueSubscribers => cases h; exact .same (requeueSubscribers_buses _ _ _)
  | renamePending | renameSubscribers =>
    simp only [Op.exec] at h
    split at h <;> cases h
    · exact .same rfl
    · first
        | exact .same (renamePending_buses _ _ _)
        | exact .same (renameSubscribers_buses _ _ _)
  | conflicts | scenarioNameInUse | preflight | rejectEmpty | insertRows => cases h; exact .same rfl
  | finish | claim | removeRow =>
    simp only [Op.exec] at h
    (repeat' split at h) <;> cases h <;> exact .same rfl

/-- A bus stays registered, unless the operation retires its key. -/
theorem BusesAfter.lookup (h : BusesAfter s t s' op es) {k : BusKey} {b : BusRef}
    (hb : s.registry.buses.lookup k = some b) :
    s'.registry.buses.lookup k = some b ∨ ∃ x, op = .retireBuses x k.1 k.2 := by
  cases h with
  | same hsame => exact .inl (hsame ▸ hb)
  | @registered name id hfree hins =>
    have hne : k ≠ (name, id) := by
      rintro rfl
      exact hfree (mem_of_lookup hb)
    rw [hins, AList.lookup_insert_ne hne]
    exact .inl hb
  | @retired x name id _ hlook _ =>
    by_cases hk : k = (name, id)
    · subst hk
      exact .inr ⟨x, rfl⟩
    · exact .inl ((hlook k).trans ((if_neg hk).trans hb))

/-! ## The program of a POST -/

theorem mem_checkOps {name : Option String} {op : Op} (h : op ∈ checkOps name) :
    (∃ n, name = some n ∧ op = .conflicts n) ∨ ∃ n, op = .scenarioNameInUse n := by
  obtain ⟨n, hn, h⟩ := mem_flatMap.mp h
  simp only [mem_cons, not_mem_nil, or_false] at h
  rcases h with rfl | rfl
  · exact .inl ⟨n, Option.mem_toList.mp hn, rfl⟩
  · exact .inr ⟨n, rfl⟩

theorem mem_adoptOps {hs : List HandleRef} {op : Op} (h : op ∈ adoptOps hs) :
    op = .rejectEmpty ∨ (∃ x, op = .renamePending x ∨ op = .renameSubscribers x) ∨
      op = .insertRows hs := by
  simp only [adoptOps] at h
  split at h
  · exact .inl (mem_singleton.mp h)
  · rcases mem_append.mp h with h | h
    · obtain ⟨x, -, h⟩ := mem_flatMap.mp h
      simp only [mem_cons, not_mem_nil, or_false] at h
      exact .inr (.inl ⟨x, h⟩)
    · exact .inr (.inr (mem_singleton.mp h))

/-- What a POST does up to the end of its launch. -/
def front (P : Pipeline α τ) (file : CompiledFile α) (order : List String) : List Op :=
  checkOps file.scenarioName ++ [.preflight] ++ (launchOps P true file order).map .launch

theorem mem_front {op : Op} (h : op ∈ front P file order) :
    ((∃ m, file.scenarioName = some m ∧ op = .conflicts m) ∨ ∃ m, op = .scenarioNameInUse m) ∨
      op = .preflight ∨ ∃ lop ∈ launchOps P true file order, op = .launch lop := by
  simp only [front, mem_append, mem_singleton, mem_map] at h
  rcases h with (h | h) | ⟨lop, hl, rfl⟩
  · exact .inl (mem_checkOps h)
  · exact .inr (.inl h)
  · exact .inr (.inr ⟨lop, hl, rfl⟩)

theorem mem_admitCompiled {n : Nat} {op : Op} (h : op ∈ (admitCompiled P n file order).todo) :
    op ∈ front P file order ∨ op ∈ adoptOps (launched n (launchOps P true file order)) :=
  mem_append.mp h

/-! ## Fresh references -/

/-- The handle an operation launches. -/
def launches (launch : Nat) : Op → Option HandleRef
  | .launch (.launch index _) => some ⟨launch, index⟩
  | _ => none

/-- The handles a thread has still to launch. -/
def toLaunch (t : Thread) : List HandleRef := t.todo.filterMap (launches t.launch)

/-- What the thread at `i` has still to launch is new, and its own. -/
structure FreshThread (w : Shared) (i : Nat) (t : Thread) : Prop where
  nodup : (toLaunch t).Nodup
  launch : ∀ h ∈ toLaunch t, h.launch = i
  unused : ∀ h ∈ toLaunch t, h ∉ w.handles

structure Fresh (sv : ServerState) : Prop where
  thread : ∀ {i : Nat} {t}, sv.threads[i]? = some t → FreshThread sv.toShared i t
  bound : ∀ h ∈ sv.handles, h.launch < sv.threads.length

theorem fresh_start : Fresh {} := ⟨nofun, fun x hx => by simp at hx⟩

theorem Fresh.of_threads (hf : Fresh sv) (hk : Kept sv.toShared sv'.toShared)
    (ht : sv'.threads = sv.threads) : Fresh sv' := by
  refine ⟨fun hm => ?_, fun h hmem => ht ▸ hf.bound h (hk.mem_iff.mp hmem)⟩
  obtain ⟨hnodup, hlaunch, hunused⟩ := hf.thread (ht ▸ hm)
  exact ⟨hnodup, hlaunch, fun h hh hmem => hunused h hh (hk.mem_iff.mp hmem)⟩

theorem Fresh.spawn {sv : ServerState} (hf : Fresh sv) {t : Thread} (hn : (toLaunch t).Nodup)
    (hl : ∀ h ∈ toLaunch t, h.launch = sv.threads.length) : Fresh (sv.spawn t) := by
  constructor
  · intro i t' ht
    rcases getElem?_append_cases ht with ⟨rfl, rfl⟩ | ht
    · exact ⟨hn, hl, fun h hh hmem => absurd (hl h hh) (Nat.ne_of_lt (hf.bound h hmem))⟩
    · exact hf.thread ht
  · intro h hmem
    have := hf.bound h hmem
    simp only [ServerState.spawn, length_append, length_singleton]
    omega

/-- What a thread has to launch after an operation. -/
theorem toLaunch_exec (h : op.exec inp s { t with todo := rest } = (s', t', es)) :
    List.Sublist (toLaunch t') (rest.filterMap (launches t.launch)) := by
  obtain ⟨hl, -, hr | hr⟩ := exec_thread h
  · rw [toLaunch, hr, hl]
  · rw [toLaunch, hr]
    exact nil_sublist _

/-- The entries of a file are launched under their indices. -/
theorem launched_launchOps (n : Nat) (resolver : Bool) (file : CompiledFile α) (order : List String) :
    ∃ gated : List GatedFields, launched n (launchOps P resolver file order) =
      gated.zipIdx.map fun p => ⟨n, p.2⟩ := by
  have hwire (resolver : Bool) (ps : List (GatedFields × Nat)) :
      launched n (ps.flatMap fun p => wireOps P resolver file p.2 p.1) = [] := by
    refine filterMap_eq_nil_iff.mpr fun op hop => ?_
    obtain ⟨p, -, hop⟩ := mem_flatMap.mp hop
    rcases mem_wireOps hop with ⟨_, rfl⟩ | rfl | ⟨_, rfl⟩ <;> rfl
  have hspawn (ps : List (GatedFields × Nat)) :
      launched n (ps.flatMap fun p => spawnOps resolver file p.2 p.1) = ps.map fun p => ⟨n, p.2⟩ := by
    induction ps with
    | nil => rfl
    | cons p ps ih =>
      simp only [launched, flatMap_cons, filterMap_append, spawnOps] at ih ⊢
      rw [ih]
      split <;> rfl
  rcases launchOps_cases P resolver file order with ⟨e, h, -⟩ | ⟨prepared, -, h⟩ <;> rw [h]
  · exact ⟨[], rfl⟩
  · refine ⟨prepared.map fun p => p.2.1, ?_⟩
    have hreg : launched n (registerOps resolver file order) = [] := by
      refine filterMap_eq_nil_iff.mpr fun op hop => ?_
      obtain ⟨_, _, rfl⟩ := mem_registerOps hop
      rfl
    simp only [tailOps, launched, filterMap_append] at hreg hwire hspawn ⊢
    rw [hreg, hwire, hspawn]
    split <;> simp

theorem toLaunch_admitCompiled (n : Nat) (file : CompiledFile α) (order : List String) :
    toLaunch (admitCompiled P n file order) = launched n (launchOps P true file order) := by
  have hcheck : (checkOps file.scenarioName).filterMap (launches n) = [] :=
    filterMap_eq_nil_iff.mpr fun op h => by
      rcases mem_checkOps h with ⟨_, _, rfl⟩ | ⟨_, rfl⟩ <;> rfl
  have hadopt (hs : List HandleRef) : (adoptOps hs).filterMap (launches n) = [] :=
    filterMap_eq_nil_iff.mpr fun op h => by
      rcases mem_adoptOps h with rfl | ⟨_, rfl | rfl⟩ | rfl <;> rfl
  have hlaunch (ops : List LaunchOp) : (ops.map Op.launch).filterMap (launches n) = launched n ops := by
    rw [filterMap_map, launched]
    refine filterMap_congr fun op _ => ?_
    cases op <;> rfl
  simp only [toLaunch, admitCompiled, filterMap_append, hcheck, hadopt, hlaunch]
  simp [launches]

theorem Fresh.exec {sv : ServerState} {i : Nat} (hf : Fresh sv) (ht : sv.threads[i]? = some t)
    (htodo : t.todo = op :: rest)
    (hex : op.exec inp sv.toAppState { t with todo := rest } = (s, t', es)) :
    Fresh ⟨s, sv.threads.set i t'⟩ := by
  have hrest := toLaunch_exec hex
  have hold : toLaunch t = (op :: rest).filterMap (launches t.launch) := by rw [toLaunch, htodo]
  have hsub : List.Sublist (toLaunch t') (toLaunch t) :=
    hold ▸ hrest.trans ((sublist_cons_self op rest).filterMap _)
  obtain ⟨hnodup, hlaunch, hunused⟩ := hf.thread ht
  -- a handle is new only where the operation launches it
  have hnew {x : HandleRef} (hx : x ∈ s.handles) : x ∈ sv.handles ∨
      toLaunch t = x :: rest.filterMap (launches t.launch) := by
    rcases exec_handles hex with ⟨index, handle, rfl, he⟩ | hk
    · rw [he, AList.mem_insert] at hx
      exact hx.symm.imp id fun e => by rw [hold, e]; rfl
    · exact .inl (hk.mem_iff.mp hx)
  refine ⟨fun {j x} hx => ?_, fun h hmem => ?_⟩
  · rcases getElem?_set_cases hx with ⟨rfl, rfl⟩ | ⟨hij, hx⟩
    · refine ⟨hnodup.sublist hsub, fun h hh => hlaunch h (hsub.subset hh), fun h hh hmem => ?_⟩
      rcases hnew hmem with hmem | heq
      · exact hunused h (hsub.subset hh) hmem
      · rw [heq] at hnodup
        exact (nodup_cons.mp hnodup).1 (hrest.subset hh)
    · have hfresh := hf.thread hx
      refine ⟨hfresh.nodup, hfresh.launch, fun h hh hmem => ?_⟩
      rcases hnew hmem with hmem | heq
      · exact hfresh.unused h hh hmem
      · exact hij ((hfresh.launch h hh).symm.trans (hlaunch h (heq ▸ mem_cons_self)))
  · rw [length_set]
    rcases hnew hmem with hmem | heq
    · exact hf.bound h hmem
    · rw [hlaunch h (heq ▸ mem_cons_self)]
      exact (List.getElem?_eq_some_iff.mp ht).1

theorem fresh_step (hf : Fresh sv) (h : Steps P sv a sv' es) : Fresh sv' := by
  cases h with
  | @post file order =>
    obtain ⟨gated, hg⟩ := launched_launchOps (P := P) sv.threads.length true file order
    refine hf.spawn ?_ ?_ <;> rw [toLaunch_admitCompiled, hg]
    · refine List.Nodup.of_map HandleRef.index ?_
      rw [map_map]
      exact nodup_zipIdx_map_snd gated
    · intro h hh
      obtain ⟨p, -, rfl⟩ := mem_map.mp hh
      rfl
  | transition hh hfin =>
    exact hf.of_threads (kept_state hh hfin) rfl
  | @finish x handle hh =>
    have hl : toLaunch (dropStateGuard x handle) = [] := by
      simp only [toLaunch, dropStateGuard, unregisterOps]
      cases handle.scenarioName <;> rfl
    have hf' : Fresh ({ sv with toAppState := sv.setHandle x { handle with ending := true } } :
        ServerState) :=
      hf.of_threads (kept_ending hh) rfl
    refine hf'.spawn ?_ ?_ <;> rw [hl] <;> simp
  | @delete x handle hh =>
    have hl : toLaunch (deleteScenario x handle) = [] := by
      simp only [toLaunch, deleteScenario, unregisterOps]
      cases handle.scenarioName <;> rfl
    refine hf.spawn ?_ ?_ <;> rw [hl] <;> simp
  | drop => exact hf.of_threads (kept_of_eq rfl) rfl
  | op ht htodo ha hex => exact hf.exec ht htodo hex

/-- A step launches a handle, or keeps the handles. -/
theorem handles_of_step (h : Steps P sv a sv' es) : Kept sv.toShared sv'.toShared ∨
      ∃ i inp t index handle rest, a = .step i inp ∧ sv.threads[i]? = some t ∧
        t.todo = .launch (.launch index handle) :: rest ∧
        sv'.handles = sv.handles.insert ⟨t.launch, index⟩ handle := by
  cases h with
  | post | delete | drop => exact .inl (kept_of_eq rfl)
  | transition hh hfin => exact .inl (kept_state hh hfin)
  | finish hh => exact .inl (kept_ending hh)
  | op ht htodo ha hex =>
    rcases exec_handles hex with ⟨index, handle, rfl, he⟩ | hk
    · exact .inr ⟨_, _, _, index, handle, _, rfl, ht, htodo, he⟩
    · exact .inl hk

/-- The handles there were are still there. -/
theorem later_of_step (hf : Fresh sv) (h : Steps P sv a sv' es) {x : HandleRef}
    (hh : sv.handles.lookup x = some handle) :
    ∃ handle', sv'.handles.lookup x = some handle' ∧ Later x handle handle' := by
  rcases handles_of_step h with hk | ⟨i, inp, t, index, new, rest, -, ht, htodo, he⟩
  · exact hk.later hh
  · have hne : x ≠ ⟨t.launch, index⟩ := by
      rintro rfl
      exact (hf.thread ht).unused _ (by simp [toLaunch, htodo, launches]) (mem_of_lookup hh)
    exact ⟨handle, by rw [he]; exact (AList.lookup_insert_ne hne).trans hh, .refl x handle⟩

/-! ## Threads and rows after a step -/

theorem mem_spawn {sv : ServerState} {t : Thread} (h : u ∈ (sv.spawn t).threads) :
    u ∈ sv.threads ∨ u = t :=
  (mem_append.mp h).imp id mem_singleton.mp

/-- The thread at `j` after a step: it was there, it is new, or it has just
done an operation. -/
inductive ThreadAfter (P : Pipeline α τ) (sv sv' : ServerState) (a : ServerAct α) (j : Nat)
    (u : Thread) : Prop
  | same (h : sv.threads[j]? = some u) (hne : ∀ inp, a ≠ .step j inp)
  | posted {file : CompiledFile α} {order : List String} (hj : j = sv.threads.length)
      (hu : u = admitCompiled P j file order)
  | ending {x : HandleRef} {handle : ScenarioHandle} (hj : j = sv.threads.length)
      (hu : u = dropStateGuard x handle ∨ u = deleteScenario x handle)
  | stepped {t : Thread} {op : Op} {rest : List Op} {inp : OpInput} {es : List RegistryEvent}
      (ha : a = .step j inp) (ht : sv.threads[j]? = some t) (htodo : t.todo = op :: rest)
      (hex : op.exec inp sv.toAppState { t with todo := rest } = (sv'.toAppState, u, es))

theorem threadAfter_of_step (h : Steps P sv a sv' es) {j : Nat} (hu : sv'.threads[j]? = some u) :
    ThreadAfter P sv sv' a j u := by
  cases h with
  | post =>
    rcases getElem?_append_cases hu with ⟨rfl, rfl⟩ | hu
    · exact .posted rfl rfl
    · exact .same hu nofun
  | finish =>
    rcases getElem?_append_cases hu with ⟨rfl, rfl⟩ | hu
    · exact .ending rfl (.inl rfl)
    · exact .same hu nofun
  | delete =>
    rcases getElem?_append_cases hu with ⟨rfl, rfl⟩ | hu
    · exact .ending rfl (.inr rfl)
    · exact .same hu nofun
  | transition | drop => exact .same hu nofun
  | op ht htodo ha hex =>
    rcases getElem?_set_cases hu with ⟨rfl, rfl⟩ | ⟨hne, hu⟩
    · exact .stepped rfl ht htodo hex
    · exact .same hu fun _ h => by cases h; contradiction

theorem row_of_exec (h : op.exec inp s t = (s', t', es)) {r : HandleRef} (hr : r ∈ s'.scenarios) :
    r ∈ s.scenarios ∨ ∃ hs, op = .insertRows hs ∧ r ∈ hs := by
  cases op with
  | insertRows hs =>
    cases h
    exact (mem_append.mp hr).imp_right fun hr => ⟨hs, rfl, hr⟩
  | removeRow x =>
    simp only [Op.exec] at h
    (repeat' split at h) <;> cases h
    · exact .inl hr
    · exact .inl (mem_filter.mp hr).1
    · exact .inl hr
  | launch | renamePending | renameSubscribers | finish | claim =>
    simp only [Op.exec] at h
    (repeat' split at h) <;> cases h <;> exact .inl hr
  | _ => cases h; exact .inl hr

/-- A row after a step was there, or the step has inserted it. -/
theorem row_of_step (h : Steps P sv a sv' es) {r : HandleRef} (hr : r ∈ sv'.scenarios) :
    r ∈ sv.scenarios ∨ ∃ i inp t hs rest, a = .step i inp ∧ sv.threads[i]? = some t ∧
      t.todo = .insertRows hs :: rest ∧ r ∈ hs := by
  cases h with
  | op ht htodo ha hex =>
    rcases row_of_exec hex hr with hr | ⟨hs, rfl, hr⟩
    · exact .inl hr
    · exact .inr ⟨_, _, _, hs, _, rfl, ht, htodo, hr⟩
  | _ => exact .inl hr

/-- One metric of the scenario `web`. -/
def webCpu : CompiledFile Unit where
  scenarioName := some "web"
  entries := [⟨some "cpu", "metrics", none, none, ()⟩]

/-- The thread `i` goes on for `n` operations. -/
def steps (i n : Nat) : List (ServerAct Unit) := List.replicate n (.step i {})

end Sonda.Proof.Server
