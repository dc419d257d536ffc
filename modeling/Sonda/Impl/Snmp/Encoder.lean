import Sonda.Impl.Snmp.AgentSink

/-!
# Publish records

How the `SnmpEncoder` of `sonda-core/src/encoder/snmp/mod.rs` lays a record
out: the end of `render_oid` and `encode_metric`. What a series' templates and
labels render to is given, as are the octets a value type writes; an event
that the encoder rejects has no record.
-/

namespace Sonda.Snmp

/-- The tags the value types write. -/
def Tag.isValue : Tag → Bool
  | integer | octetString | oid | ipAddress | counter32 | gauge32 | timeTicks | opaqueValue
  | counter64 => true
  | _ => false

/-- The TLV a value type writes. -/
structure Value where
  tag : Tag
  octets : Octets
  isValue : tag.isValue = true
  deriving DecidableEq

def Value.write (value : Value) (out : Octets) : Octets := writeOctets out value.tag value.octets

/-- A label column's instance for a series. -/
structure ColumnInstance where
  oid : Oid
  indexArcs : UInt8
  value : Value
  deriving DecidableEq

/-- What a series renders to: its instance, and the columns it serves. -/
structure SeriesInstance where
  oid : Oid
  indexArcs : UInt8
  columns : List ColumnInstance
  deriving DecidableEq

structure Rendered where
  /-- The encoded OBJECT IDENTIFIER. -/
  oid : Octets
  indexArcs : UInt8
  companions : Octets
  companionCount : UInt8
  deriving DecidableEq

def writeCompanion (companions : Octets) (column : ColumnInstance) : Octets :=
  writeTlv (companions ++ [column.indexArcs]) .sequence fun out =>
    column.value.write (writeOid out column.oid)

/-- `render_oid`, of a series that renders. The encoder has at most 255 label
columns. -/
def renderOid (series : SeriesInstance) : Rendered where
  oid := writeOid [] series.oid
  indexArcs := series.indexArcs
  companions := series.columns.foldl writeCompanion []
  companionCount := UInt8.ofNat series.columns.length

/-- `encode_metric`, of an event whose value its type can write. `companions`
is what `take_companions` returned. -/
def encodeMetric (rendered : Rendered) (companions : Bool) (value : Value) (buf : Octets) : Octets :=
  let buf := buf ++ [rendered.indexArcs, if companions then rendered.companionCount else 0]
  let buf := writeTlv buf .sequence fun out => value.write (out ++ rendered.oid)
  if companions then buf ++ rendered.companions else buf

end Sonda.Snmp
