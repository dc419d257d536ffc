import Sonda.Impl.Snmp.MibTable
import Sonda.Impl.Snmp.Settings

/-!
# What an agent serves

The read side of the `SnmpAgent` of `sonda-core/src/sink/snmp/agent.rs`: the
instances of the table and the system group, in one order. An `SnmpAgent` is
the agent as it is while one datagram is answered, with the table as it stands
then and one reading of the clock behind `sysUpTime`.

`bulk` takes the callback `emit` as a step of a state: what the source's
closure assigns to its captures.
-/

namespace Sonda.Snmp

/-! ## Counters -/

inductive Counter
  | get
  | getNext
  | getBulk
  | setRefused
  | malformed
  | wrongCommunity
  | tooBig
  | unsupportedVersion
  | v1
  | v3
  | usmUnknownEngineIds
  | usmUnknownUserNames
  | usmUnsupportedSecLevels
  | usmWrongDigests
  | usmNotInTimeWindows
  | usmDecryptionErrors
  deriving DecidableEq

/-! ## The system group -/

structure SystemInstance where
  oid : Oid
  /-- `none` for `sysUpTime`, which is made on each read. -/
  varbind : Option Octets
  deriving DecidableEq

/-- A `VarBind` of `oid` and an encoded value. -/
def varbindOf (oid : Oid) (value : Octets) : Octets := writeVarbind [] oid value

/-- The arc of each object of the system group, and its encoded value. -/
def systemValues (system : SystemSettings) : List (Nat × Option Octets) :=
  [(1, some (writeString [] system.descr)),
    (2, some (writeOid [] system.objectId)),
    (3, none),
    (4, some (writeString [] system.contact)),
    (5, some (writeString [] system.name)),
    (6, some (writeString [] system.location)),
    (7, some (writeInteger [] system.services.toNat))]

def systemInstances (settings : AgentSettings) : List SystemInstance :=
  (systemValues settings.system).filterMap fun p =>
    (Oid.fromArcs (systemGroup ++ [p.1, 0])).map fun oid => ⟨oid, p.2.map (varbindOf oid)⟩

/-- The instance without its last arc. -/
def systemObjectOf (oid : Oid) : Oid := (Oid.fromArcs oid.arcs.dropLast).getD oid

/-! ## The agent -/

structure SnmpAgent where
  settings : AgentSettings
  usm : Usm
  system : List SystemInstance
  table : MibTable
  /-- Milliseconds since the bind. -/
  uptimeMillis : Nat
  counters : Counter → Nat

/-- The host an agent is bound on: its name, the address it bound, and the
salts its counters start at. -/
structure Bound where
  hostname : Octets
  localAddr : Text
  salts : SaltCounter

/-- The table of an agent that nothing is published on. -/
def bindTable (settings : AgentSettings) : MibTable where
  objects := Std.TreeSet.ofList ((systemInstances settings).map fun i => systemObjectOf i.oid)

def SnmpAgent.bind (crypto : Crypto) (settings : AgentSettings) (bound : Bound) (table : MibTable)
    (uptimeMillis : Nat) (counters : Counter → Nat) : SnmpAgent where
  settings
  usm := Usm.new crypto settings.engineId settings.users bound.hostname bound.localAddr bound.salts
  system := systemInstances settings
  table
  uptimeMillis
  counters

namespace SnmpAgent

variable (agent : SnmpAgent)

/-- Hundredths of a second since the bind. -/
def uptimeTicks : Nat := agent.uptimeMillis / 10 % 4294967296

def systemVarbind (i : SystemInstance) : Octets :=
  match i.varbind with
  | some varbind => varbind
  | none => writeTlv [] .sequence fun out => writeTimeticks (writeOid out i.oid) agent.uptimeTicks

inductive Found
  | value (varbind : Octets)
  | noSuchInstance
  | noSuchObject
  deriving DecidableEq

/-- A registered object is `oid` or a front of it. -/
def underObject (oid : List Nat) : Bool :=
  (List.range (oid.length + 1)).any fun len =>
    decide (2 ≤ len) && agent.table.objects.any fun object => object.arcs == oid.take len

def lookup (oid : List Nat) : Found :=
  match agent.system.find? fun i => i.oid.arcs == oid with
  | some i => .value (agent.systemVarbind i)
  | none =>
    match (agent.table.slots.toList.find? fun p => p.1.arcs == oid) with
    | some (_, slot) => .value slot.varbind
    | none => if agent.underObject oid then .noSuchInstance else .noSuchObject

end SnmpAgent

/-- The value of a `VarBind` is a `Counter64`, by its identifier octet. -/
def isCounter64 (varbind : Octets) : Bool :=
  match (Reader.new varbind).expect .sequence with
  | .error _ => false
  | .ok (body, _) =>
    match Reader.expect body .oid with
    | .error _ => false
    | .ok (_, fields) =>
      match fields.rawTlv with
      | .ok ((tag, _), _) => tag == Tag.counter64.byte
      | .error _ => false

/-! ## Successors -/

/-- An instance, as `bulk` comes to it. -/
structure Instance where
  fromSystem : Bool
  oid : Oid
  varbind : Octets
  deriving DecidableEq

/-- The next of the published and the system instances, and what is left of
both. -/
def SnmpAgent.nextOf (agent : SnmpAgent) (published : List (Oid × Slot)) (system : List SystemInstance) :
    Option (Instance × List (Oid × Slot) × List SystemInstance) :=
  match published, system with
  | [], [] => none
  | p :: published, [] => some (⟨false, p.1, p.2.varbind⟩, published, [])
  | [], i :: system => some (⟨true, i.oid, agent.systemVarbind i⟩, [], system)
  | p :: published, i :: system =>
    if i.oid < p.1 then some (⟨true, i.oid, agent.systemVarbind i⟩, p :: published, system)
    else some (⟨false, p.1, p.2.varbind⟩, published, i :: system)

/-- The loop of `bulk`, at most `max` more instances to emit. Each round takes
one instance, so the fuel is how many are left. -/
def bulkRounds {σ : Type} (agent : SnmpAgent) (skipCounter64 : Bool)
    (emit : σ → Oid → Octets → σ × Bool) :
    (fuel : Nat) → List (Oid × Slot) → List SystemInstance → (max : Nat) → σ → σ
  | 0, _, _, _, s => s
  | fuel + 1, published, system, max, s =>
    if max = 0 then s
    else
      match agent.nextOf published system with
      | none => s
      | some (next, published, system) =>
        -- the system group holds no Counter64
        if !next.fromSystem && skipCounter64 && isCounter64 next.varbind then
          bulkRounds agent skipCounter64 emit fuel published system max s
        else
          let r := emit s next.oid next.varbind
          if r.2 then bulkRounds agent skipCounter64 emit fuel published system (max - 1) r.1
          else r.1

def SnmpAgent.bulk {σ : Type} (agent : SnmpAgent) (start : List Nat) (max : Nat) (skipCounter64 : Bool)
    (emit : σ → Oid → Octets → σ × Bool) (s : σ) : σ :=
  let published := agent.table.slots.toList.filter fun p => decide (start < p.1.arcs)
  let system := agent.system.dropWhile fun i => decide (i.oid.arcs ≤ start)
  bulkRounds agent skipCounter64 emit (published.length + system.length) published system max s

end Sonda.Snmp
