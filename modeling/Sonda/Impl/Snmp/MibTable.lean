import Sonda.Impl.Schedule.ScheduleLoop
import Sonda.Impl.Snmp.Oid

/-!
# The table of an agent

The `MibTable` of `sonda-core/src/sink/snmp/agent.rs` with the calls that
change it. Each call holds the table's lock from its start to its end, so each
is one function of the table. `localAddr` is the address the error texts name.
-/

namespace Sonda.Snmp

open Sonda.Schedule (SondaError)

/-- `1.3.6.1.2.1.1`, the system group. -/
def systemGroup : List Nat := [1, 3, 6, 1, 2, 1, 1]

/-- The launch an instance belongs to. -/
abbrev Owner := Nat

structure Slot where
  varbind : Octets
  owner : Owner
  publishers : Nat
  deriving DecidableEq

structure MibTable where
  slots : Std.TreeMap Oid Slot := {}
  objects : Std.TreeSet Oid := {}

namespace MibTable

def publish (localAddr : String) (table : MibTable) (owner : Owner) (oid : Oid) (varbind : Octets)
    (first : Bool) : Except SondaError MibTable :=
  match table.slots[oid]? with
  | some slot =>
    if slot.owner ≠ owner then
      .error (.config ("the snmp OID " ++ oid.text ++ " on " ++ localAddr ++
        " is already published by another running scenario"))
    else
      let slot := { slot with varbind, publishers := slot.publishers + first.toNat }
      .ok { table with slots := table.slots.insert oid slot }
  | none =>
    if systemGroup.isPrefixOf oid.arcs then
      .error (.config ("the snmp OID " ++ oid.text ++ " is under 1.3.6.1.2.1.1, the system group, " ++
        "which snmp_agent " ++ localAddr ++ " serves itself"))
    else .ok { table with slots := table.slots.insert oid { varbind, owner, publishers := 1 } }

/-- `none` when no instance has that OID. -/
def overwrite (table : MibTable) (oid : Oid) (varbind : Octets) : Option MibTable :=
  match table.slots[oid]? with
  | some slot => some { table with slots := table.slots.insert oid { slot with varbind } }
  | none => none

def registerObject (table : MibTable) (object : Oid) : MibTable :=
  { table with objects := table.objects.insert object }

def release (table : MibTable) (owner : Owner) (oid : Oid) : MibTable :=
  match table.slots[oid]? with
  | some slot =>
    if slot.owner = owner then
      let publishers := slot.publishers - 1
      if publishers = 0 then { table with slots := table.slots.erase oid }
      else { table with slots := table.slots.insert oid { slot with publishers } }
    else table
  | none => table

end MibTable

end Sonda.Snmp
