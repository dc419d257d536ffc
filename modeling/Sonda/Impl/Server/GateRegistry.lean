import Mathlib.Data.List.AList
import Sonda.Framework.Locks
import Sonda.Impl.Schedule.GatedLoop

/-!
# The gate-bus registry of the server

`GateBusRegistry` holds the buses of the running scenarios by scenario name
and entry id, the downstreams subscribed to each (`subscribers`), and the
downstreams whose upstream is not registered (`pending`). Each function below
is what the source does while it holds one set of locks; `unregister_entries`
and `rename_handle` release theirs half way and so are two functions each.
The last section is the locks themselves.

The order in which a map is iterated is a parameter where more than one key
can be met. `registered_at` and the attempt counts are left out: nothing
below depends on them.
-/

namespace Sonda.Server

open Sonda.Schedule Framework

abbrev BusKey := String × String

/-- An `Arc<GateBus>`: the bus a launch made for one of its entry ids. -/
structure BusRef where
  launch : Nat
  entryId : String
  deriving DecidableEq

/-- A launched scenario: its stats, its task and the sender of its edges. -/
structure HandleRef where
  launch : Nat
  index : Nat
  deriving DecidableEq

/-- The id of a handle: the one of its entry, or the fresh one the server
gives it. -/
inductive HandleId
  | given (id : String)
  | fresh (h : HandleRef)
  deriving DecidableEq

structure PendingResolution where
  handleId : HandleId
  downstream : HandleRef
  scenarioName : String
  entryId : String
  ifUnresolved : UnresolvedBehavior
  spec : WhileSpec
  deriving DecidableEq

structure SubscriberRef where
  handleId : HandleId
  downstream : HandleRef
  spec : WhileSpec
  ifUnresolved : UnresolvedBehavior
  deriving DecidableEq

def SubscriberRef.fromPending (p : PendingResolution) : BusKey × SubscriberRef :=
  ((p.scenarioName, p.entryId), ⟨p.handleId, p.downstream, p.spec, p.ifUnresolved⟩)

def SubscriberRef.intoPending (s : SubscriberRef) (scenarioName entryId : String) :
    PendingResolution :=
  ⟨s.handleId, s.downstream, scenarioName, entryId, s.ifUnresolved, s.spec⟩

inductive RegistryError
  | duplicateScenarioName (name : String)
  deriving DecidableEq

def RegistryError.message : RegistryError → String
  | .duplicateScenarioName name =>
    s!"scenario_name '{name}' is already in use by a running scenario"

structure GateBusRegistry where
  buses : AList fun _ : BusKey => BusRef := ∅
  /-- The rows of the map, each subscriber with the key of its row. -/
  subscribers : List (BusKey × SubscriberRef) := []
  pending : AList fun _ : HandleId => PendingResolution := ∅

namespace GateBusRegistry

variable (r : GateBusRegistry)

/-! ## One set of locks each -/

def register (scenarioName entryId : String) (bus : BusRef) : Except RegistryError GateBusRegistry :=
  if (scenarioName, entryId) ∈ r.buses then .error (.duplicateScenarioName scenarioName)
  else .ok { r with buses := r.buses.insert (scenarioName, entryId) bus }

def lookup (scenarioName entryId : String) : Option BusRef :=
  r.buses.lookup (scenarioName, entryId)

def scenarioNameInUse (scenarioName : String) : Bool :=
  r.buses.keys.any (·.1 == scenarioName)

/-- The buses taken out, with their keys. Each is told that it is gone. -/
def retireBuses (scenarioName : String) (entryIds : List String) :
    GateBusRegistry × List (BusKey × BusRef) :=
  let keys := r.buses.keys.filter fun k => k.1 == scenarioName && entryIds.contains k.2
  ({ r with buses := keys.foldl (fun buses k => buses.erase k) r.buses },
    keys.filterMap fun k => (r.buses.lookup k).map (k, ·))

def insertPending (p : PendingResolution) : GateBusRegistry :=
  { r with pending := r.pending.insert p.handleId p }

def trackSubscriber (p : PendingResolution) : GateBusRegistry :=
  { r with subscribers := r.subscribers ++ [SubscriberRef.fromPending p] }

variable (alive : HandleRef → Bool)

/-- One key of `requeue_subscribers`: the live subscribers of its row wait
again, and are told that their upstream is gone. -/
def requeueKey (key : BusKey) : GateBusRegistry :=
  let row := r.subscribers.filter fun p => p.1 = key && alive p.2.downstream
  row.foldl (fun r p => r.insertPending (p.2.intoPending key.1 key.2))
    { r with subscribers := r.subscribers.filter fun p => p.1 ≠ key }

def requeueSubscribers (keys : List BusKey) : GateBusRegistry :=
  keys.foldl (fun r key => r.requeueKey alive key) r

/-- One key of `sweep_pending`: a waiter that is gone is dropped, one whose
upstream is registered is subscribed to its bus. -/
def sweepKey (handleId : HandleId) : GateBusRegistry × List (BusRef × HandleRef) :=
  match r.pending.lookup handleId with
  | none => (r, [])
  | some entry =>
    if alive entry.downstream = false then ({ r with pending := r.pending.erase handleId }, [])
    else
      match r.lookup entry.scenarioName entry.entryId with
      | none => (r, [])
      | some bus =>
        (({ r with pending := r.pending.erase handleId } : GateBusRegistry).trackSubscriber entry,
          [(bus, entry.downstream)])

/-- The waiters are met in `order`. The second part is the subscriptions made
on buses. -/
def sweepPending (alive : HandleRef → Bool) :
    List HandleId → GateBusRegistry → GateBusRegistry × List (BusRef × HandleRef)
  | [], r => (r, [])
  | handleId :: order, r =>
    let (r, subscribed) := r.sweepKey alive handleId
    let (r, subscribed') := sweepPending alive order r
    (r, subscribed ++ subscribed')

/-- `rename_handle` under the lock of `pending`. -/
def renamePending (oldId newId : HandleId) : GateBusRegistry :=
  if oldId = newId then r
  else
    match r.pending.lookup oldId with
    | none => r
    | some entry =>
      { r with pending := (r.pending.erase oldId).insert newId { entry with handleId := newId } }

/-- `rename_handle` under the lock of `subscribers`. -/
def renameSubscribers (oldId newId : HandleId) : GateBusRegistry :=
  if oldId = newId then r
  else
    { r with
      subscribers := r.subscribers.map fun p =>
        if p.2.handleId = oldId then (p.1, { p.2 with handleId := newId }) else p }

end GateBusRegistry

/-! ## The locks of each call -/

inductive RegistryLock
  | buses
  | subscribers
  | pending
  deriving DecidableEq

inductive RegistryCall
  | register
  | lookup
  | subscribe
  | unregisterEntries
  | sweepPending
  | insertPending
  | pendingForHandle
  | scenarioNameInUse
  | trackSubscriber
  | cancelPendingForUpstream
  | renameHandle (oldId newId : String)
  deriving DecidableEq

/-- A lock taken for one access. -/
def once (l : RegistryLock) (m : Mode) : List (LockOp RegistryLock) := [.acquire l m, .release l]

def retireBusesLocks : List (LockOp RegistryLock) := once .buses .write

def requeueSubscribersLocks : List (LockOp RegistryLock) :=
  [.acquire .subscribers .write, .acquire .pending .write, .release .pending, .release .subscribers]

/-- The guards of a function are released in the reverse order. -/
def RegistryCall.locks : RegistryCall → List (LockOp RegistryLock)
  | .register => once .buses .write
  | .lookup | .subscribe | .scenarioNameInUse => once .buses .read
  | .unregisterEntries => retireBusesLocks ++ requeueSubscribersLocks
  | .sweepPending =>
    [.acquire .buses .read, .acquire .pending .write, .acquire .subscribers .write,
      .release .subscribers, .release .pending, .release .buses]
  | .insertPending | .cancelPendingForUpstream => once .pending .write
  | .pendingForHandle => once .pending .read
  | .trackSubscriber => once .subscribers .write
  | .renameHandle oldId newId =>
    if oldId = newId then [] else once .pending .write ++ once .subscribers .write

def registryCalls : Program RegistryCall RegistryLock := ⟨RegistryCall.locks⟩

end Sonda.Server
