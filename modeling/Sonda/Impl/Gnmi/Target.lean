import Mathlib.Data.List.AList
import Sonda.Impl.Gnmi.Path

/-!
# The table of a target

The `SeriesTable` of `sonda-core/src/sink/gnmi/target.rs` and the calls of
`GnmiTarget` that read and change it. What a call does under one hold of the
table's lock is one function of the table; `store`, which lets the lock go between
its read and its write, is two. `localAddr` is the address the error texts name.

Encoded notifications are kept as what the target reads of them. A path key is its
path: keys compare as their paths do.
-/

namespace Sonda.Gnmi

open Sonda.Schedule (SondaError)

/-! ## Encoded notifications -/

/-- The member of the value's oneof. -/
inductive ValueKind
  | string
  | int
  | uint
  | bool
  | double
  | jsonIetf
  | other (field : UInt32)
  deriving DecidableEq

/-- An encoded `TypedValue`. `value_span` locates only one whose first key it has
read, so none is empty. -/
structure TypedValue where
  octets : List UInt8
  nonempty : octets ≠ []
  deriving DecidableEq

/-- The octets of a notification, by what the target reads of them. -/
structure Encoded where
  timestamp : Int
  /-- `PathKey::decode`: the path of the first update, or why there is none. -/
  path : Except String Path
  /-- `value_span`: the value of the first update and its kind. -/
  value : Option (TypedValue × ValueKind)
  deriving DecidableEq

/-- No octets at all. -/
def Encoded.empty : Encoded := ⟨0, .error "no update path", none⟩

def notANotification (detail : String) : SondaError :=
  .sink ("gnmi_target received bytes that are not a gnmi notification with an update: " ++ detail)

def decodePath (encoded : Encoded) : Except SondaError Path :=
  encoded.path.mapError notANotification

/-! ## The table -/

abbrev SeriesId := UInt32

/-- The launch a series belongs to. -/
abbrev Owner := Nat

structure Latest where
  encoded : Encoded := .empty
  /-- How many times the series' value has changed. -/
  version : Nat := 0
  deriving DecidableEq

/-- The octets of the value, none before the first. -/
def Latest.value (latest : Latest) : List UInt8 := latest.encoded.value.elim [] (·.1.octets)

/-- `encoded` with its value located, and the value's kind. -/
def latestOf (encoded : Encoded) : Except SondaError (Latest × ValueKind) :=
  match encoded.value with
  | some (_, kind) => .ok ({ encoded }, kind)
  | none => .error (notANotification "no update value")

structure Slot where
  path : Path
  latest : Latest
  kind : ValueKind
  owner : Owner
  publishers : Nat
  deriving DecidableEq

structure SeriesTable where
  ids : AList (fun _ : Path => SeriesId) := ∅
  slots : AList (fun _ : SeriesId => Slot) := ∅
  nextId : SeriesId := 0

structure SeriesUpdate where
  seriesId : SeriesId
  kind : ValueKind
  version : Nat
  encoded : Encoded
  deriving DecidableEq

inductive SeriesEvent
  | changed (update : SeriesUpdate)
  /-- With the delete of the series' path. -/
  | removed (id : SeriesId) (path : Path)
  deriving DecidableEq

/-- What a call does besides changing the table: what it broadcasts, and `created`,
which only marks that a series was given its id. -/
inductive TargetEvent
  | created (id : SeriesId) (path : Path)
  | sent (event : SeriesEvent)
  deriving DecidableEq

def replace (id : SeriesId) (kind : ValueKind) (current latest : Latest) :
    Latest × List TargetEvent :=
  let changed := current.value != latest.value
  let version := current.version + changed.toNat
  ({ latest with version },
    if changed then [.sent (.changed ⟨id, kind, version, latest.encoded⟩)] else [])

/-- The first of `id`, `id + 1`, … that no series holds. One of the first
`slots.length + 1` is free unless all are held; then the loop of the source does not
end, and there is none. -/
def freeId (slots : AList fun _ : SeriesId => Slot) : (fuel : Nat) → SeriesId → Option SeriesId
  | 0, _ => none
  | fuel + 1, id => if id ∈ slots then freeId slots fuel (id + 1) else some id

namespace SeriesTable

def slotAt (table : SeriesTable) (path : Path) : Option (SeriesId × Slot) :=
  (table.ids.lookup path).bind fun id => (table.slots.lookup id).map fun slot => (id, slot)

def stored (table : SeriesTable) (id : SeriesId) (slot : Slot) (latest : Latest) :
    SeriesTable × List TargetEvent :=
  let (current, events) := replace id slot.kind slot.latest latest
  ({ table with slots := table.slots.insert id { slot with latest := current } }, events)

variable (table : SeriesTable) (owner : Owner) (id : SeriesId)

/-- `store` with a cached id, under the read lock; `none` when the id does not name
this path's series of this owner. -/
def storeCached (path : Path) (latest : Latest) : Option (SeriesTable × List TargetEvent) :=
  ((table.slots.lookup id).filter fun slot => slot.owner = owner ∧ slot.path = path).map fun slot =>
    table.stored id slot latest

/-- One more publisher of the series `id`, made if it is not there. -/
def claim (path : Path) (latest : Latest) (kind : ValueKind) : SeriesTable × List TargetEvent :=
  let slot := (table.slots.lookup id).getD { path, latest := {}, kind, owner, publishers := 0 }
  table.stored id { slot with publishers := slot.publishers + 1 } latest

/-- `store` under the write lock: a publisher's first publish of `path`. `none` when
no id is free. -/
def storeFirst (localAddr : String) (table : SeriesTable) (owner : Owner) (path : Path) (latest : Latest)
    (kind : ValueKind) : Option (Except SondaError (SeriesId × SeriesTable × List TargetEvent)) :=
  match table.ids.lookup path with
  | some id =>
    if (table.slots.lookup id).any fun slot => slot.owner ≠ owner then
      some (.error (.config ("the gnmi path " ++ "`" ++ str path.text ++ "` on " ++ localAddr ++
        " is already published by another running scenario")))
    else some (.ok (id, table.claim owner id path latest kind))
  | none =>
    (freeId table.slots (table.slots.entries.length + 1) table.nextId).map fun id =>
      let table := { table with nextId := id + 1, ids := table.ids.insert path id }
      let (table, events) := table.claim owner id path latest kind
      .ok (id, table, .created id path :: events)

/-- `none` when no series has that path. -/
def overwrite (table : SeriesTable) (path : Path) (latest : Latest) :
    Option (SeriesTable × List TargetEvent) :=
  (table.slotAt path).map fun (id, slot) => table.stored id slot latest

def pathOf (table : SeriesTable) (id : SeriesId) : Option Path :=
  (table.slots.lookup id).map Slot.path

def releaseOne : SeriesTable × List TargetEvent :=
  match (table.slots.lookup id).filter fun slot => slot.owner = owner with
  | none => (table, [])
  | some slot =>
    let publishers := slot.publishers - 1
    if publishers = 0 then
      ({ table with ids := table.ids.erase slot.path, slots := table.slots.erase id },
        [.sent (.removed id slot.path)])
    else ({ table with slots := table.slots.insert id { slot with publishers } }, [])

def release (table : SeriesTable) (owner : Owner) : List SeriesId → SeriesTable × List TargetEvent
  | [] => (table, [])
  | id :: ids =>
    let (table, events) := table.releaseOne owner id
    let (table, more) := table.release owner ids
    (table, events ++ more)

end SeriesTable

end Sonda.Gnmi
