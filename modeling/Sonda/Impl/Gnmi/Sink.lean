import Sonda.Impl.Gnmi.Target

/-!
# The sinks of a target

The `GnmiTargetSink` of `sonda-core/src/sink/gnmi/mod.rs`: `write_metric_event` and
`drop`, for any number of sinks that share one target.

Calls on two sinks run in parallel. A step of the machine is what a call does from
one use of the target's table up to the next: a first publish and the reading back
of the table's key are two steps, and so are a publish that does not find the series
under its cached id and the one under the write lock that follows it. A drop
releases all paths of its sink under one hold of the lock, in one step.
-/

namespace Sonda.Gnmi

open Framework
open Config (Text)
open Sonda.Schedule (SondaError)

abbrev MetricKey := Text × Labels

/-- A path a sink has published, and the id the target gave it. -/
structure Publication where
  id : SeriesId
  path : Path
  deriving DecidableEq

structure GnmiTargetSink where
  owner : Owner
  /-- Each series key's entry in `published`. -/
  owned : AList (fun _ : MetricKey => Nat) := ∅
  published : List Publication := []
  /-- Each path's entry in `published`. -/
  paths : AList (fun _ : Path => Nat) := ∅
  lastDelivered : Bool := false
  joined : Bool := false

/-- Where a sink is between two uses of the table. -/
inductive SinkPc
  | idle
  /-- In `store` for `published[entry]`, whose cached id named no series of its. -/
  | relocking (entry : Nat) (latest : Latest) (kind : ValueKind)
  /-- The first event of `path` is published, and not yet in `published`. -/
  | recording (key : MetricKey) (id : SeriesId) (path : Path)
  | dropped
  deriving DecidableEq

structure SinkThread where
  sink : GnmiTargetSink
  pc : SinkPc := .idle

/-- What a step leads to, and what the call returned if it did. -/
structure SinkStep where
  table : SeriesTable
  thread : SinkThread
  events : List TargetEvent := []
  result : Option (Except SondaError Unit) := none

section calls

variable (localAddr : String) (table : SeriesTable) (sink : GnmiTargetSink)

def fail (e : SondaError) : SinkStep := { table, thread := ⟨sink, .idle⟩, result := some (.error e) }

def delivered (events : List TargetEvent) : SinkStep :=
  { table, thread := ⟨{ sink with lastDelivered := true }, .idle⟩, events, result := some (.ok ()) }

/-- `write_metric_event` of a joined sink. -/
def writeJoined (encoded : Encoded) : SinkStep :=
  match decodePath encoded with
  | .error e => fail table sink e
  | .ok path =>
    match latestOf encoded with
    | .error e => fail table sink e
    | .ok (latest, _) =>
      match table.overwrite path latest with
      | none => fail table sink (.config ("no running scenario serves the gnmi path " ++ "`" ++
          str path.text ++ "` on " ++ localAddr))
      | some (table, events) => delivered table sink events

/-- An event of a path that `published[entry]` has. The index is `none` where the
source would panic. -/
def republish (entry : Nat) (encoded : Encoded) : Option SinkStep :=
  sink.published[entry]?.map fun publication =>
    match latestOf encoded with
    | .error e => fail table sink e
    | .ok (latest, kind) =>
      match table.storeCached sink.owner publication.id publication.path latest with
      | some (table, events) => delivered table sink events
      | none => { table, thread := ⟨sink, .relocking entry latest kind⟩ }

/-- `store` for `published[entry]` under the write lock. -/
def restore (entry : Nat) (latest : Latest) (kind : ValueKind) : Option SinkStep :=
  sink.published[entry]?.bind fun publication =>
    (table.storeFirst localAddr sink.owner publication.path latest kind).map fun stored =>
      match stored with
      | .error e => fail table sink e
      | .ok (id, table, events) =>
        delivered table { sink with published := sink.published.set entry { publication with id } } events

def publishFirst (key : MetricKey) (path : Path) (encoded : Encoded) : Option SinkStep :=
  match latestOf encoded with
  | .error e => some (fail table sink e)
  | .ok (latest, kind) =>
    (table.storeFirst localAddr sink.owner path latest kind).map fun stored =>
      match stored with
      | .error e => fail table sink e
      | .ok (id, table, events) => { table, thread := ⟨sink, .recording key id path⟩, events }

/-- The path is entered under the table's own key. -/
def record (key : MetricKey) (id : SeriesId) (path : Path) : SinkStep :=
  let path := (table.pathOf id).getD path
  let entry := sink.published.length
  delivered table
    { sink with
      published := sink.published ++ [⟨id, path⟩]
      paths := sink.paths.insert path entry
      owned := sink.owned.insert key entry } []

/-- `write_metric_event`, up to its first use of the table; `serving` and
`exitError` are the state of the listener and the error it exited with. -/
def writeMetricEvent (serving : Bool) (exitError : Option String) (key : MetricKey) (encoded : Encoded) :
    Option SinkStep :=
  let sink := { sink with lastDelivered := false }
  if !serving then
    some (fail table sink (.sink ("gnmi_target " ++ localAddr ++ " is no longer serving: " ++
      exitError.getD "it was stopped")))
  else if sink.joined then some (writeJoined localAddr table sink encoded)
  else
    match sink.owned.lookup key with
    | some entry => republish table sink entry encoded
    | none =>
      match decodePath encoded with
      | .error e => some (fail table sink e)
      | .ok path =>
        match sink.paths.lookup path with
        | some entry =>
          republish table { sink with owned := sink.owned.insert key entry } entry encoded
        | none => publishFirst localAddr table sink key path encoded

end calls

def SinkThread.go (localAddr : String) (table : SeriesTable) (t : SinkThread) : Option SinkStep :=
  match t.pc with
  | .idle | .dropped => none
  | .relocking entry latest kind => restore localAddr table t.sink entry latest kind
  | .recording key id path => some (record table t.sink key id path)

def SinkThread.drop (table : SeriesTable) (t : SinkThread) : SinkStep :=
  let (table, events) := table.release t.sink.owner (t.sink.published.map Publication.id)
  { table, thread := ⟨t.sink, .dropped⟩, events }

/-! ## The machine -/

structure SinkWorld where
  table : SeriesTable := {}
  threads : List SinkThread := []

inductive SinkCall
  /-- `from_target` or `join`. -/
  | new (owner : Owner) (joined : Bool)
  | write (i : Nat) (serving : Bool) (exitError : Option String) (key : MetricKey) (encoded : Encoded)
  /-- The call sink `i` is in goes on. -/
  | go (i : Nat)
  | drop (i : Nat)

inductive SinkEvent
  | returned (i : Nat) (result : Except SondaError Unit)
  | target (event : TargetEvent)

def SinkWorld.after (w : SinkWorld) (i : Nat) (s : SinkStep) : SinkWorld × List SinkEvent :=
  (⟨s.table, w.threads.set i s.thread⟩,
    s.events.map .target ++ s.result.toList.map (.returned i))

def sinkStep (localAddr : String) (w : SinkWorld) : SinkCall → Option (SinkWorld × List SinkEvent)
  | .new owner joined => some ({ w with threads := w.threads ++ [⟨{ owner, joined }, .idle⟩] }, [])
  | .write i serving exitError key encoded =>
    w.threads[i]?.bind fun t =>
      if t.pc = .idle then
        (writeMetricEvent localAddr w.table t.sink serving exitError key encoded).map (w.after i)
      else none
  | .go i => w.threads[i]?.bind fun t => (t.go localAddr w.table).map (w.after i)
  | .drop i =>
    w.threads[i]?.bind fun t => if t.pc = .idle then some (w.after i (t.drop w.table)) else none

def sinks (localAddr : String) : Machine SinkWorld SinkCall SinkEvent where
  step := sinkStep localAddr

end Sonda.Gnmi
