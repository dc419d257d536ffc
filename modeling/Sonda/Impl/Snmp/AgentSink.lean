import Mathlib.Data.List.AList
import Sonda.Impl.Snmp.MibTable

/-!
# The sinks of an agent

`split_record` of `sonda-core/src/encoder/snmp/mod.rs`, and the
`SnmpAgentSink` of `sonda-core/src/sink/snmp/mod.rs`: `write_metric_event`,
`publish_companions` and `drop`, for any number of sinks that share one agent.

A call on a sink does not await, but calls on two sinks run in parallel. A
step of the machine is what a call does from one use of the agent's table up
to the next: `write_metric_event` up to the publish of the instance, then one
companion a step; `drop`, then one release a step. A `register_object` after a
publish is part of its step: nothing that is modelled here reads `objects`.
-/

namespace Sonda.Snmp

open Framework
open Sonda.Schedule (SondaError)

/-! ## Publish records -/

abbrev MetricKey := String × List (String × String)

def notARecord (detail : String) : SondaError :=
  .sink ("the event is not an snmp publish record (" ++ detail ++ "); the snmp_agent sink takes " ++
    "the snmp encoder's output")

/-- The SEQUENCE at the start of `input`, and the octets after it. -/
def splitVarbind (input : Octets) : Except BerError (Octets × Octets) := do
  let (body, _) ← (Reader.new input).expect .sequence
  .ok (input.take body.stop, input.drop body.stop)

structure Companion where
  indexArcs : Nat
  varbind : Octets
  deriving DecidableEq

/-- The companion records not yet read. -/
structure Companions where
  rest : Octets
  left : Nat
  deriving DecidableEq

def Companions.next (c : Companions) : Option (Companion × Companions) :=
  if c.left = 0 then none
  else
    match c.rest with
    | [] => none
    | indexArcs :: rest =>
      match splitVarbind rest with
      | .ok (varbind, rest) => some (⟨indexArcs.toNat, varbind⟩, ⟨rest, c.left - 1⟩)
      | .error _ => none

structure Record where
  indexArcs : Nat
  varbind : Octets
  companions : Companions
  deriving DecidableEq

/-- Go over `left` of the `count` companion records. -/
def checkCompanions (count : UInt8) : Nat → Octets → Except SondaError Octets
  | 0, rest => .ok rest
  | left + 1, rest =>
    match rest with
    | [] => .error (notARecord ("it announces " ++ toString count.toNat ++
        " companion records and carries fewer"))
    | _ :: after =>
      match splitVarbind after with
      | .ok (_, rest) => checkCompanions count left rest
      | .error e => .error (notARecord e.text)

def splitRecord (encoded : Octets) : Except SondaError Record :=
  match encoded with
  | [] => .error (notARecord "it is empty")
  | [_] => .error (notARecord "it has no companion count")
  | indexArcs :: count :: rest =>
    match splitVarbind rest with
    | .error e => .error (notARecord e.text)
    | .ok (varbind, companions) => do
      let rest ← checkCompanions count count.toNat companions
      if !rest.isEmpty then .error (notARecord "bytes follow its last VarBind")
      else .ok ⟨indexArcs.toNat, varbind, ⟨companions, count.toNat⟩⟩

def instanceOid (varbind : Octets) : Except SondaError Oid :=
  match (Reader.new varbind).expect .sequence with
  | .error e => .error (notARecord e.text)
  | .ok (body, _) =>
    match Reader.oid body with
    | .error e => .error (notARecord e.text)
    | .ok (oid, _) => .ok oid

def objectOf (instanceOid : Oid) (indexArcs : Nat) : Except SondaError Oid :=
  let arcs := instanceOid.arcs
  let object := if indexArcs ≤ arcs.length then Oid.fromArcs (arcs.take (arcs.length - indexArcs)) else none
  match object with
  | some object => .ok object
  | none => .error (notARecord (toString indexArcs ++ " index arcs leave no object of the OID " ++
      instanceOid.text))

/-! ## Sinks -/

/-- An instance a sink has published, and the label columns' instances
published with it. -/
structure Publication where
  oid : Oid
  companions : List Oid
  deriving DecidableEq

structure SnmpAgentSink where
  owner : Owner
  /-- Each series key's entry in `published`. -/
  owned : AList (fun _ : MetricKey => Nat) := ∅
  published : List Publication := []
  /-- Each instance's entry in `published`. -/
  instances : AList (fun _ : Oid => Nat) := ∅
  lastDelivered : Bool := false
  joined : Bool := false

/-- Where a sink is between two uses of the table. -/
inductive SinkPc
  | idle
  /-- In `publish_companions` for `published[entry]`. -/
  | companions (entry : Nat) (rest : Companions)
  /-- In the companions of a joined sink's record. -/
  | overwriting (rest : Companions)
  /-- In `drop`, with what it has yet to release. -/
  | dropping (rest : List Oid)
  | dropped
  deriving DecidableEq

structure SinkThread where
  sink : SnmpAgentSink
  pc : SinkPc := .idle

/-- What a step leads to, and what the call returned if it did. -/
structure SinkStep where
  table : MibTable
  thread : SinkThread
  result : Option (Except SondaError Unit) := none

section calls

variable (localAddr : String) (table : MibTable) (sink : SnmpAgentSink)

def fail (e : SondaError) : SinkStep := ⟨table, ⟨sink, .idle⟩, some (.error e)⟩

/-- The call has published the instance of `published[entry]`, and goes on
with its companions. -/
def published (entry : Nat) (companions : Companions) : SinkStep :=
  ⟨table, ⟨{ sink with lastDelivered := true }, .companions entry companions⟩, none⟩

/-- A record of an instance that `published[entry]` has. The index is `none`
where the source would panic. -/
def republish (entry : Nat) (record : Record) : Option SinkStep :=
  sink.published[entry]?.map fun publication =>
    match table.publish localAddr sink.owner publication.oid record.varbind false with
    | .error e => fail table sink e
    | .ok table =>
      if 0 < record.companions.left then published table sink entry record.companions
      else ⟨table, ⟨{ sink with lastDelivered := true }, .idle⟩, some (.ok ())⟩

def publishFirst (key : MetricKey) (oid : Oid) (record : Record) : SinkStep :=
  match objectOf oid record.indexArcs with
  | .error e => fail table sink e
  | .ok object =>
    match table.publish localAddr sink.owner oid record.varbind true with
    | .error e => fail table sink e
    | .ok table =>
      let entry := sink.published.length
      published (table.registerObject object)
        { sink with
          published := sink.published ++ [⟨oid, []⟩]
          instances := sink.instances.insert oid entry
          owned := sink.owned.insert key entry }
        entry record.companions

/-- `write_metric_event` of a joined sink. -/
def writeJoined (record : Record) : SinkStep :=
  match instanceOid record.varbind with
  | .error e => fail table sink e
  | .ok oid =>
    match table.overwrite oid record.varbind with
    | none => fail table sink (.config ("no running scenario serves the snmp OID " ++ oid.text ++
        " on " ++ localAddr))
    | some table =>
      ⟨table, ⟨{ sink with lastDelivered := true }, .overwriting record.companions⟩, none⟩

/-- `write_metric_event`, up to the publish of the instance. -/
def writeMetricEvent (serving : Bool) (key : MetricKey) (encoded : Octets) : Option SinkStep :=
  let sink := { sink with lastDelivered := false }
  if !serving then
    some (fail table sink (.sink ("snmp_agent " ++ localAddr ++ " is no longer serving")))
  else
    match splitRecord encoded with
    | .error e => some (fail table sink e)
    | .ok record =>
      if sink.joined then some (writeJoined localAddr table sink record)
      else
        match sink.owned.lookup key with
        | some entry => republish localAddr table sink entry record
        | none =>
          match instanceOid record.varbind with
          | .error e => some (fail table sink e)
          | .ok oid =>
            match sink.instances.lookup oid with
            | some entry =>
              republish localAddr table { sink with owned := sink.owned.insert key entry } entry record
            | none => some (publishFirst localAddr table sink key oid record)

/-- One companion of `published[entry]`, whose publication is `publication`. -/
def publishCompanion (entry : Nat) (publication : Publication) (companion : Companion)
    (rest : Companions) : SinkStep :=
  match instanceOid companion.varbind with
  | .error e => fail table sink e
  | .ok oid =>
    if oid ∈ publication.companions then
      match table.publish localAddr sink.owner oid companion.varbind false with
      | .error e => fail table sink e
      | .ok table => ⟨table, ⟨sink, .companions entry rest⟩, none⟩
    else
      match objectOf oid companion.indexArcs with
      | .error e => fail table sink e
      | .ok object =>
        match table.publish localAddr sink.owner oid companion.varbind true with
        | .error e => fail table sink e
        | .ok table =>
          let publication := { publication with companions := publication.companions ++ [oid] }
          ⟨table.registerObject object,
            ⟨{ sink with published := sink.published.set entry publication }, .companions entry rest⟩,
            none⟩

/-- One companion of a joined sink's record. -/
def overwriteCompanion (companion : Companion) (rest : Companions) : SinkStep :=
  match instanceOid companion.varbind with
  | .error e => fail table sink e
  | .ok oid =>
    ⟨(table.overwrite oid companion.varbind).getD table, ⟨sink, .overwriting rest⟩, none⟩

end calls

def SinkStep.return (table : MibTable) (sink : SnmpAgentSink) : SinkStep :=
  ⟨table, ⟨sink, .idle⟩, some (.ok ())⟩

/-- What `drop` releases, in order. -/
def releases (published : List Publication) : List Oid :=
  published.flatMap fun publication => publication.oid :: publication.companions

def SinkThread.go (localAddr : String) (table : MibTable) (t : SinkThread) : Option SinkStep :=
  match t.pc with
  | .idle | .dropped => none
  | .companions entry rest =>
    match rest.next with
    | none => some (.return table t.sink)
    | some (companion, rest) => t.sink.published[entry]?.map fun publication =>
        publishCompanion localAddr table t.sink entry publication companion rest
  | .overwriting rest =>
    match rest.next with
    | none => some (.return table t.sink)
    | some (companion, rest) => some (overwriteCompanion table t.sink companion rest)
  | .dropping [] => some ⟨table, ⟨t.sink, .dropped⟩, none⟩
  | .dropping (oid :: rest) => some ⟨table.release t.sink.owner oid, ⟨t.sink, .dropping rest⟩, none⟩

/-! ## The machine -/

structure SinkWorld where
  table : MibTable := {}
  threads : List SinkThread := []

inductive SinkCall
  /-- `from_agent` or `join`. -/
  | new (owner : Owner) (joined : Bool)
  /-- `write_metric_event`, the agent's responder running or not. -/
  | write (i : Nat) (serving : Bool) (key : MetricKey) (encoded : Octets)
  /-- The call sink `i` is in goes on. -/
  | go (i : Nat)
  | drop (i : Nat)

inductive SinkEvent
  | returned (i : Nat) (result : Except SondaError Unit)

def SinkWorld.after (w : SinkWorld) (i : Nat) (s : SinkStep) : SinkWorld × List SinkEvent :=
  (⟨s.table, w.threads.set i s.thread⟩, s.result.toList.map (.returned i))

def sinkStep (localAddr : String) (w : SinkWorld) : SinkCall → Option (SinkWorld × List SinkEvent)
  | .new owner joined => some ({ w with threads := w.threads ++ [⟨{ owner, joined }, .idle⟩] }, [])
  | .write i serving key encoded =>
    w.threads[i]?.bind fun t =>
      if t.pc = .idle then
        (writeMetricEvent localAddr w.table t.sink serving key encoded).map (w.after i)
      else none
  | .go i => w.threads[i]?.bind fun t => (t.go localAddr w.table).map (w.after i)
  | .drop i =>
    w.threads[i]?.bind fun t =>
      if t.pc = .idle then
        some (w.after i ⟨w.table, ⟨t.sink, .dropping (releases t.sink.published)⟩, none⟩)
      else none

def sinks (localAddr : String) : Machine SinkWorld SinkCall SinkEvent where
  step := sinkStep localAddr

end Sonda.Snmp
