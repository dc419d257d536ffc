import Sonda.Impl.Schedule.MultiRunner

/-!
# Posting, ending and deleting scenarios

The server as a machine. A POST (`admit_compiled`), the end of a scenario's
task (the drop of its `StateGuard`) and a DELETE (`delete_scenario`) are
threads; each has the operations it still has to do, and each operation takes
effect at once. The threads interleave freely.

Left out are the permits and the pre-flight checks of a POST, which may refuse
it at one point (`preflight`), the stopping and joining of a deleted
scenario, whose task ends at a time of its own, and the guard that cleans up
after a panic.
-/

namespace Sonda.Server

open Sonda.Schedule Framework

/-- The state of the server. A row of `scenarios` is a handle under its fresh
id. -/
structure AppState extends Shared where
  scenarios : List HandleRef := []

/-- The states that hold on to a scenario's name. -/
def blocks : ScenarioState → Bool
  | .pending | .running | .paused | .held | .unresolved => true
  | .finished => false

def AppState.collectActiveConflicts (s : AppState) (name : String) : List HandleRef :=
  s.scenarios.filter fun h => (s.handles.lookup h).any fun handle =>
    handle.scenarioName == some name && blocks handle.state

def AppState.setHandle (s : AppState) (h : HandleRef) (handle : ScenarioHandle) : AppState :=
  { s with handles := s.handles.insert h handle }

/-! ## Operations -/

inductive Op
  /-- The rows that hold on to the name are collected. -/
  | conflicts (name : String)
  | scenarioNameInUse (name : String)
  /-- `prepare`, `prepare_entries` and the permits. -/
  | preflight
  | launch (op : LaunchOp)
  /-- Nothing was launched. -/
  | rejectEmpty
  | renamePending (h : HandleRef)
  | renameSubscribers (h : HandleRef)
  | insertRows (hs : List HandleRef)
  /-- The state of the handle becomes `Finished`. -/
  | finish (h : HandleRef)
  /-- `cleaned_up` is swapped, and ends the drop if it was set. -/
  | claim (h : HandleRef)
  /-- The row is removed and `cleaned_up` is set. -/
  | removeRow (h : HandleRef)
  | retireBuses (h : HandleRef) (scenarioName entryId : String)
  | requeueSubscribers
  deriving DecidableEq

structure Thread where
  /-- The launch a POST makes. -/
  launch : Nat
  scenarioName : Option String
  todo : List Op
  found : Found := fun _ => none
  /-- The keys of the buses it retired. -/
  removed : List BusKey := []

def Thread.stop (t : Thread) : Thread := { t with todo := [] }

/-- What is left open about an operation. -/
structure OpInput where
  /-- The order in which a sweep meets the waiters. -/
  order : List HandleId := []
  /-- The pre-flight checks refuse the file. -/
  refused : Bool := false

/-- An operation of the thread `t`, from whose list it is already taken. -/
def Op.exec (inp : OpInput) (s : AppState) (t : Thread) :
    Op → AppState × Thread × List RegistryEvent
  | .conflicts name => (s, if (s.collectActiveConflicts name).isEmpty then t else t.stop, [])
  | .scenarioNameInUse name => (s, if s.registry.scenarioNameInUse name then t.stop else t, [])
  | .preflight => (s, if inp.refused then t.stop else t, [])
  | .launch op =>
    match op.exec t.launch inp.order t.found s.toShared with
    | .error _ => (s, t.stop, [])
    | .ok (found, w, es) => ({ s with toShared := w }, { t with found }, es)
  | .rejectEmpty => (s, t.stop, [])
  | .renamePending h =>
    match s.handles.lookup h with
    | none => (s, t, [])
    | some handle => ({ s with registry := s.registry.renamePending handle.id (.fresh h) }, t, [])
  | .renameSubscribers h =>
    match s.handles.lookup h with
    | none => (s, t, [])
    | some handle =>
      -- the handle has its new id from before the renaming on, but only this thread sees it
      (({ s with registry := s.registry.renameSubscribers handle.id (.fresh h) } : AppState).setHandle h
        { handle with id := .fresh h }, t, [])
  | .insertRows hs => ({ s with scenarios := s.scenarios ++ hs }, t, [])
  | .finish h =>
    match s.handles.lookup h with
    | none => (s, t, [])
    | some handle => (s.setHandle h { handle with state := .finished }, t, [])
  | .claim h =>
    match s.handles.lookup h with
    | none => (s, t.stop, [])
    | some handle =>
      if handle.cleanedUp then (s, t.stop, [])
      else (s.setHandle h { handle with cleanedUp := true }, t, [])
  | .removeRow h =>
    match s.handles.lookup h with
    | none => (s, t.stop, [])
    | some handle =>
      if h ∈ s.scenarios then
        (({ s with scenarios := s.scenarios.filter (· ≠ h) } : AppState).setHandle h
          { handle with cleanedUp := true }, t, [])
      else (s, t.stop, [])
  | .retireBuses h scenarioName entryId =>
    let (registry, retired) := s.registry.retireBuses scenarioName [entryId]
    ({ s with registry }, { t with removed := retired.map Prod.fst },
      retired.map fun p => .retired h p.1 p.2)
  | .requeueSubscribers =>
    ({ s with registry := s.registry.requeueSubscribers s.alive t.removed }, t, [])

/-! ## Threads -/

def launched (launch : Nat) (ops : List LaunchOp) : List HandleRef :=
  ops.filterMap fun
    | .launch index _ => some ⟨launch, index⟩
    | _ => none

def checkOps (scenarioName : Option String) : List Op :=
  scenarioName.toList.flatMap fun name => [.conflicts name, .scenarioNameInUse name]

/-- What follows the launch of the handles `hs`. -/
def adoptOps (hs : List HandleRef) : List Op :=
  if hs.isEmpty then [.rejectEmpty]
  else (hs.flatMap fun h => [.renamePending h, .renameSubscribers h]) ++ [.insertRows hs]

variable {α τ : Type} (P : Pipeline α τ)

def admitCompiled (launch : Nat) (file : CompiledFile α) (order : List String) : Thread where
  launch := launch
  scenarioName := file.scenarioName
  todo :=
    let ops := launchOps P true file order
    checkOps file.scenarioName ++ [.preflight] ++ ops.map .launch ++ adoptOps (launched launch ops)

variable (h : HandleRef) (handle : ScenarioHandle)

/-- Unregistering the entry of a handle, if its scenario has a name. -/
def unregisterOps : List Op :=
  handle.scenarioName.toList.flatMap fun name =>
    [.retireBuses h name handle.entryId, .requeueSubscribers]

def dropStateGuard : Thread where
  launch := h.launch
  scenarioName := none
  todo := [.finish h, .claim h] ++ unregisterOps h handle

def deleteScenario : Thread where
  launch := h.launch
  scenarioName := none
  todo := .removeRow h :: unregisterOps h handle

/-! ## The machine -/

structure ServerState extends AppState where
  threads : List Thread := []

inductive ServerAct (α : Type)
  /-- A file is posted; `order` is the order of its buses in their map. -/
  | post (file : CompiledFile α) (order : List String)
  /-- The task of a handle writes its state. -/
  | transition (h : HandleRef) (state : ScenarioState)
  /-- The task of a handle ends. -/
  | finish (h : HandleRef)
  | delete (h : HandleRef)
  /-- The last reference to the stats of a handle goes, whenever that is. -/
  | drop (h : HandleRef)
  | step (i : Nat) (inp : OpInput)

/-- A sweep meets every waiter once. -/
def Op.allows (inp : OpInput) (s : AppState) : Op → Bool
  | .launch .sweepPending => inp.order.isPerm s.registry.pending.keys
  | _ => true

def threadStep (sv : ServerState) (i : Nat) (inp : OpInput) :
    Option (ServerState × List RegistryEvent) :=
  sv.threads[i]?.bind fun t =>
    match t.todo with
    | [] => none
    | op :: rest =>
      if op.allows inp sv.toAppState then
        let (s, t', es) := op.exec inp sv.toAppState { t with todo := rest }
        some (⟨s, sv.threads.set i t'⟩, es)
      else none

def ServerState.spawn (sv : ServerState) (t : Thread) : ServerState :=
  { sv with threads := sv.threads ++ [t] }

def serverStep (sv : ServerState) : ServerAct α → Option (ServerState × List RegistryEvent)
  | .post file order =>
    if order.isPerm (busIds file) then
      some (sv.spawn (admitCompiled P sv.threads.length file order), [])
    else none
  | .transition h state =>
    (sv.handles.lookup h).bind fun handle =>
      if handle.ending || handle.state == .finished then none
      else some ({ sv with toAppState := sv.setHandle h { handle with state } }, [])
  | .finish h =>
    (sv.handles.lookup h).bind fun handle =>
      if handle.ending then none
      else some (({ sv with toAppState := sv.setHandle h { handle with ending := true } } :
        ServerState).spawn (dropStateGuard h handle), [])
  | .delete h => (sv.handles.lookup h).map fun handle => (sv.spawn (deleteScenario h handle), [])
  | .drop h => some ({ sv with dropped := h :: sv.dropped }, [])
  | .step i inp => threadStep sv i inp

def server : Machine ServerState (ServerAct α) RegistryEvent where
  step := serverStep P

end Sonda.Server
