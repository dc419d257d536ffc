import Mathlib.Data.List.Dedup
import Sonda.Impl.Server.GateRegistry

/-!
# Launching a compiled file

`launch_multi_compiled` prepares every entry of a file, registers a bus for
each entry id that may be an upstream, wires the gates and starts the entries.
What it does to the registry is a list of operations (`launchOps`), each of
which takes effect at once (`LaunchOp.exec`); between two of them the other
launches go on. An error ends the call where it comes up.

The stages an entry passes through before the launch, and the parser of a
phase offset, are a parameter (`Pipeline`).
-/

namespace Sonda.Schedule

open Sonda.Server

structure WhileClause where
  refId : String
  op : WhileOp
  value : Value
  scenarioName : Option String := none
  ifUnresolved : Option UnresolvedBehavior := none

/-- A compiled entry; `body` is what only the translation reads. -/
structure CompiledEntry (α : Type) where
  id : Option String
  signalType : String
  whileClause : Option WhileClause := none
  phaseOffset : Option String := none
  body : α

structure CompiledFile (α : Type) where
  scenarioName : Option String
  entries : List (CompiledEntry α)

/-! ## Preparing the entries -/

/-- The fields of a compiled entry the gated launch needs and translation
drops. -/
structure GatedFields where
  id : Option String
  whileClause : Option WhileClause
  phaseOffset : Option String

def CompiledEntry.gated {α : Type} (e : CompiledEntry α) : GatedFields :=
  ⟨e.id, e.whileClause, e.phaseOffset⟩

/-- The stages of the preparation. An error that is only quoted in another is
its text. -/
structure Pipeline (α τ : Type) where
  translateEntry : CompiledEntry α → Except String τ
  expandEntry : τ → Except SondaError (List τ)
  desugarEntry : τ → Except SondaError τ
  validateFile : List (Nat × τ) → Except SondaError Unit
  validateEntry : τ → Except SondaError Unit
  checkRunningSinks : List τ → Except SondaError Unit
  parsePhaseOffset : String → Except String (Option Nat)

variable {α τ : Type} (P : Pipeline α τ)

def expandGatedEntry (e : CompiledEntry α) : Except SondaError (Option τ) :=
  match P.translateEntry e with
  | .error message => .error (.config ("compile prepare: " ++ message))
  | .ok translated => do
    match ← P.expandEntry translated with
    | [] => .ok none
    | [entry] => return some (← P.desugarEntry entry)
    | _ => .error (.config ("scenario id " ++ (e.id.getD "(anonymous)").quote ++
        ": csv_replay multi-column expansion is not supported when `while:` is in use; " ++
        "specify a single column or remove the gate"))

/-- The entries of the file from index `i` on. -/
def expandGatedEntries (i : Nat) :
    List (CompiledEntry α) → Except SondaError (List (Nat × GatedFields × τ))
  | [] => .ok []
  | e :: es => do
    let entry ← expandGatedEntry P e
    let prepared ← expandGatedEntries (i + 1) es
    return (entry.map fun entry => (i, e.gated, entry)).toList ++ prepared

def prepareGatedFile (entries : List (CompiledEntry α)) :
    Except SondaError (List (Nat × GatedFields × τ)) := do
  let prepared ← expandGatedEntries P 0 entries
  P.validateFile (prepared.map fun p => (p.1, p.2.2))
  prepared.forM fun p => P.validateEntry p.2.2
  return prepared

/-! ## Buses -/

def crossScenarioTarget (clause : WhileClause) (fileScenarioName : Option String) : Option String :=
  clause.scenarioName.bind fun name => if some name = fileScenarioName then none else some name

/-- Local `while:` upstream ids; cross-POST refs are excluded. -/
def whileUpstreamIds (entries : List (CompiledEntry α)) (fileScenarioName : Option String) :
    List String :=
  entries.filterMap fun e => e.whileClause.bind fun clause =>
    if (crossScenarioTarget clause fileScenarioName).isSome then none else some clause.refId

/-- The ids that get a bus. They become the keys of a map, so their order is
left open. -/
def busIds (file : CompiledFile α) : List String :=
  let ids := whileUpstreamIds file.entries file.scenarioName
  let metrics := file.entries.filterMap fun e => if e.signalType = "metrics" then e.id else none
  (if file.scenarioName.isSome then ids ++ metrics else ids).dedup

/-! ## The operations -/

/-- A `DeferredSubscription` or an `ActiveSubscription`, its sender apart. -/
structure Upstream where
  scenarioName : String
  entryId : String
  ifUnresolved : UnresolvedBehavior
  spec : WhileSpec
  deriving DecidableEq

def Upstream.key (up : Upstream) : BusKey := (up.scenarioName, up.entryId)

/-- The subscription of an entry to an upstream in another file. -/
def GatedFields.upstream (g : GatedFields) (fileScenarioName : Option String) : Option Upstream :=
  g.whileClause.bind fun clause => (crossScenarioTarget clause fileScenarioName).map fun target =>
    ⟨target, clause.refId, clause.ifUnresolved.getD .pending, clause.op, clause.value⟩

/-- A handle, as the server and the registry see it. -/
structure ScenarioHandle where
  id : HandleId
  scenarioName : Option String
  entryId : String
  /-- What its gate subscribes to. -/
  upstream : Option Upstream
  state : ScenarioState := .pending
  cleanedUp : Bool := false
  /-- The drop of its `StateGuard` has begun. -/
  ending : Bool := false
  deriving DecidableEq

/-- The key its end unregisters. -/
def ScenarioHandle.key (h : ScenarioHandle) : Option BusKey := h.scenarioName.map (·, h.entryId)

/-- What the launch records of the handle `h`, if it has an upstream in
another file. -/
def ScenarioHandle.resolution (handle : ScenarioHandle) (h : HandleRef) : Option PendingResolution :=
  handle.upstream.map fun up =>
    ⟨handle.id, h, up.scenarioName, up.entryId, up.ifUnresolved, up.spec⟩

inductive LaunchOp
  | register (scenarioName entryId : String)
  /-- `lookup` for the entry at `index`. -/
  | lookup (index : Nat) (up : Upstream)
  /-- `subscribe_with_while_sender` on the bus found for it. -/
  | subscribe (index : Nat)
  | fail (e : SondaError)
  /-- `launch_scenario_with_gates_in`. -/
  | launch (index : Nat) (handle : ScenarioHandle)
  /-- `track_subscriber` where a bus was found, `insert_pending` otherwise. -/
  | record (index : Nat)
  | sweepPending
  deriving DecidableEq

variable (resolver : Bool) (file : CompiledFile α)

def registerOps (order : List String) : List LaunchOp :=
  match resolver, file.scenarioName with
  | true, some name => order.map (.register name)
  | _, _ => []

variable (index : Nat) (g : GatedFields)

def gateOps : List LaunchOp :=
  match g.upstream file.scenarioName, g.whileClause with
  | some up, _ =>
    if resolver then [.lookup index up, .subscribe index]
    else [.fail (.config ("cross-POST while: reference requires a GateBusResolver; " ++
      "the CLI does not support cross-POST `while:`"))]
  | none, some clause =>
    if clause.refId ∈ busIds file then []
    else [.fail (.config ("while: ref '" ++ clause.refId ++ "' not found among scenario ids"))]
  | none, none => []

def offsetOps (g : GatedFields) : List LaunchOp :=
  match g.phaseOffset.map P.parsePhaseOffset with
  | some (.error message) => [.fail (.config ("phase_offset: " ++ message))]
  | some (.ok _) | none => []

def wireOps : List LaunchOp :=
  gateOps resolver file index g ++ offsetOps P g

/-- Starting the entry at `index`. -/
def spawnOps : List LaunchOp :=
  let id := g.id.getD ("multi-" ++ toString index)
  let upstream := g.upstream file.scenarioName
  .launch index ⟨.given id, file.scenarioName, id, upstream, .pending, false, false⟩ ::
    if resolver && upstream.isSome then [.record index] else []

/-- The operations for the prepared entries; `order` is the order of the
buses in their map. -/
def preparedOps (order : List String) (prepared : List (Nat × GatedFields × τ)) : List LaunchOp :=
  let gated := prepared.map fun p => p.2.1
  registerOps resolver file order ++
    (gated.zipIdx.flatMap fun p => wireOps P resolver file p.2 p.1) ++
    (gated.zipIdx.flatMap fun p => spawnOps resolver file p.2 p.1) ++
    if resolver then [.sweepPending] else []

def launchOps (order : List String) : List LaunchOp :=
  match prepareGatedFile P file.entries with
  | .error e => [.fail e]
  | .ok prepared =>
    match P.checkRunningSinks (prepared.map fun p => p.2.2) with
    | .error e => [.fail e]
    | .ok () => preparedOps P resolver file order prepared

/-! ## What an operation does -/

/-- What the launches and endings share. -/
structure Shared where
  registry : GateBusRegistry := {}
  /-- The downstreams whose sender a bus holds. -/
  senders : BusRef → List HandleRef := fun _ => []
  handles : AList fun _ : HandleRef => ScenarioHandle := ∅
  /-- The handles whose stats are gone. -/
  dropped : List HandleRef := []

def Shared.alive (w : Shared) (h : HandleRef) : Bool := !w.dropped.contains h

def Shared.subscribe (w : Shared) (bus : BusRef) (h : HandleRef) : Shared :=
  { w with senders := Function.update w.senders bus (w.senders bus ++ [h]) }

/-- What is seen of the registry's buses. -/
inductive RegistryEvent
  | registered (key : BusKey) (bus : BusRef)
  /-- The end of `ender` removes a bus and tells it that it is gone. -/
  | retired (ender : HandleRef) (key : BusKey) (bus : BusRef)
  deriving DecidableEq

/-- The bus found for each entry. -/
abbrev Found := Nat → Option BusRef

/-- An operation of the launch `launch`; `order` is the order in which a
sweep meets the waiters. -/
def LaunchOp.exec (launch : Nat) (order : List HandleId) (found : Found) (w : Shared) :
    LaunchOp → Except SondaError (Found × Shared × List RegistryEvent)
  | .register scenarioName entryId =>
    match w.registry.register scenarioName entryId ⟨launch, entryId⟩ with
    | .error e => .error (.config ("gate bus registry: " ++ e.message))
    | .ok registry =>
      .ok (found, { w with registry }, [.registered (scenarioName, entryId) ⟨launch, entryId⟩])
  | .lookup index up =>
    .ok (Function.update found index (w.registry.lookup up.scenarioName up.entryId), w, [])
  | .subscribe index =>
    match found index with
    | none => .ok (found, w, [])
    | some bus => .ok (found, w.subscribe bus ⟨launch, index⟩, [])
  | .fail e => .error e
  | .launch index handle =>
    .ok (found, { w with handles := w.handles.insert ⟨launch, index⟩ handle }, [])
  | .record index =>
    match (w.handles.lookup ⟨launch, index⟩).bind (·.resolution ⟨launch, index⟩), found index with
    | none, _ => .ok (found, w, [])
    | some p, none => .ok (found, { w with registry := w.registry.insertPending p }, [])
    | some p, some _ => .ok (found, { w with registry := w.registry.trackSubscriber p }, [])
  | .sweepPending =>
    let (registry, subscribed) := GateBusRegistry.sweepPending w.alive order w.registry
    .ok (found, subscribed.foldl (fun w p => w.subscribe p.1 p.2) { w with registry }, [])

/-! ## A call on its own -/

/-- What the others do before each operation of a launch. They may change
anything but the buses this launch has registered. -/
structure Others (launch : Nat) where
  act : Nat → Shared → Shared
  keeps : ∀ n w k b, b.launch = launch →
    ((act n w).registry.buses.lookup k = some b ↔ w.registry.buses.lookup k = some b)

/-- The operations of a launch from the `n`th on: the error that ended them,
if any, and what is left behind. -/
def runOps {launch : Nat} (others : Others launch) (orders : Nat → List HandleId) :
    Nat → List LaunchOp → Found → Shared → Option SondaError × Shared
  | _, [], _, w => (none, w)
  | n, op :: ops, found, w =>
    let w := others.act n w
    match op.exec launch (orders n) found w with
    | .error e => (some e, w)
    | .ok (found', w', _) => runOps others orders (n + 1) ops found' w'

def launchMultiCompiled {launch : Nat} (others : Others launch) (orders : Nat → List HandleId)
    (resolver : Bool) (file : CompiledFile α) (order : List String) (w : Shared) :
    Option SondaError × Shared :=
  runOps others orders 0 (launchOps P resolver file order) (fun _ => none) w

end Sonda.Schedule
