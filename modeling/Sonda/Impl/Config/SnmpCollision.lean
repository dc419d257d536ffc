import Mathlib.Data.Finset.Max
import Mathlib.Data.Finset.Option
import Sonda.Framework.Passes
import Sonda.Impl.Config.LabelValues
import Sonda.Impl.Snmp.OidTemplate

/-!
# Two OID templates that can render one OID

Rule 6 of `validate_snmp_encoder`, from `sonda-core/src/config/validate.rs`:
`snmp_collision` gives each label of each template the arcs it can render as and
narrows the two sides of every position to what the other side holds, in passes
that repeat until nothing changes (`Framework.settle`). The entry of the source
is read only for the values it gives each label, the parameter `labelValueSet`.
-/

namespace Sonda.Config

open Framework Sonda.Snmp

/-- The arcs a position can render: some listed arcs and the arcs of some
counters. -/
structure ArcSet where
  listed : Finset Nat
  counters : List (Text × UInt64)
  deriving DecidableEq

instance : Inhabited ArcSet := ⟨⟨∅, []⟩⟩

/-- `arc` is a value of the counter. -/
def counterHolds (lead : Text) (cardinality : UInt64) (arc : Nat) : Bool :=
  match (stripPrefix lead (decimal arc)).bind indexArc with
  | some n => n < cardinality.toNat
  | none => false

/-- A counter's numbers go on from the digits `q`: the least of them, `q` and a
`0`, is a number of it. -/
def goesOn (q : Text) (cardinality : UInt64) : Bool :=
  q.isEmpty || (q.head? != some 0x30 && q.all isAsciiDigit &&
    (parseU128 (q ++ [0x30])).any fun number => number < cardinality.toNat)

/-- The smallest arc both counters render, of a counter whose lead is no longer
than the other's. -/
def leadsMeet (short long : Text × UInt64) : Option Nat :=
  if short.2 == 0 || long.2 == 0 then none
  else
    (stripPrefix short.1 long.1).bind fun q =>
      if goesOn q short.2 then indexArc (long.1 ++ [0x30]) else none

def countersMeet (a b : Text × UInt64) : Option Nat :=
  if a.1.length ≤ b.1.length then leadsMeet a b else leadsMeet b a

namespace ArcSet

def literal (arc : Nat) : ArcSet := ⟨{arc}, []⟩

/-- What `of_label` adds to `arcs` for a set and those outside its spikes. A
`random` spike's values are no arcs. -/
def addLabel (arcs : ArcSet) : LabelValueSet → ArcSet
  | .static value => { arcs with listed := arcs.listed ∪ (indexArc value).toFinset }
  | .values values => { arcs with listed := arcs.listed ∪ (values.filterMap indexArc).toFinset }
  | .counter lead cardinality => { arcs with counters := arcs.counters ++ [(lead, cardinality)] }
  | .spikeCounter lead cardinality outside =>
    match outside with
    | none => { arcs with counters := arcs.counters ++ [(lead, cardinality)] }
    | some set => addLabel { arcs with counters := arcs.counters ++ [(lead, cardinality)] } set
  | .randomShape _ _ _ outside =>
    match outside with
    | none => arcs
    | some set => addLabel arcs set

def ofLabel : Option LabelValueSet → ArcSet
  | none => default
  | some set => addLabel default set

def contains (s : ArcSet) (arc : Nat) : Bool :=
  decide (arc ∈ s.listed) || s.counters.any fun c => counterHolds c.1 c.2 arc

def isEmpty (s : ArcSet) : Bool := decide (s.listed = ∅) && s.counters.all fun c => c.2 == 0

def meetsACounter (other : ArcSet) (c : Text × UInt64) : Bool :=
  other.counters.any fun theirs => (countersMeet c theirs).isSome

/-- The arcs that `other` also holds: a counter that meets one of `other` is kept
whole, any other becomes the listed arcs of `other` it holds. -/
def narrow (s other : ArcSet) : ArcSet where
  listed := s.listed.filter (fun arc => other.contains arc) ∪
    other.listed.filter fun arc =>
      s.counters.any fun c => !other.meetsACounter c && counterHolds c.1 c.2 arc
  counters := s.counters.filter other.meetsACounter

def smallest (listed : Finset Nat) : Option Nat :=
  if h : listed.Nonempty then some (listed.min' h) else none

/-- The smallest arc in both sets. -/
def common (s other : ArcSet) : Option Nat :=
  let listed := [smallest (s.listed.filter fun arc => other.contains arc),
    smallest (other.listed.filter fun arc => s.contains arc)]
  let counters := s.counters.flatMap fun c => other.counters.filterMap fun d => countersMeet c d
  (listed.filterMap id ++ counters).min?

end ArcSet

/-! ## The positions of two templates -/

inductive Side
  | own
  | other
  deriving DecidableEq

/-- One side of a position: its arc, and the index of the set of the label there. -/
structure Slot where
  arc : TemplateArc
  set : Option Nat

/-- The labels of both sides and the set of each. -/
structure LabelSets where
  keys : List (Side × Text)
  sets : List ArcSet

/-- The index of the set of the label in `arc`, which a new label gets. -/
def slotFor (labelValueSet : Text → Option LabelValueSet) (labels : LabelSets) (side : Side)
    (arc : TemplateArc) : Slot × LabelSets :=
  match arc with
  | .label label =>
    match labels.keys.findIdx? fun key => decide (key = (side, label)) with
    | some i => (⟨arc, some i⟩, labels)
    | none =>
      (⟨arc, some labels.keys.length⟩,
        { keys := labels.keys ++ [(side, label)]
          sets := labels.sets ++ [.ofLabel (labelValueSet label)] })
  | _ => (⟨arc, none⟩, labels)

def positionsOf (labelValueSet : Text → Option LabelValueSet) :
    List (TemplateArc × TemplateArc) → LabelSets → List (Slot × Slot) × LabelSets
  | [], labels => ([], labels)
  | (a, b) :: rest, labels =>
    let (own, labels) := slotFor labelValueSet labels .own a
    let (other, labels) := slotFor labelValueSet labels .other b
    let (positions, labels) := positionsOf labelValueSet rest labels
    ((own, other) :: positions, labels)

/-- What a slot can render; neither template has a string index. -/
def setOf (sets : List ArcSet) (slot : Slot) : ArcSet :=
  match slot.set, slot.arc with
  | some i, _ => sets.getD i default
  | none, .literal arc => .literal arc
  | none, _ => default

/-- A label's set is narrowed to the set of the slot it faces; `none` when that
changes nothing. -/
def narrowSlot (slots : Slot × Slot) (sets : List ArcSet) : Option (List ArcSet) :=
  match slots.1.set with
  | none => none
  | some i =>
    let narrowed := (sets.getD i default).narrow (setOf sets slots.2)
    if narrowed = sets.getD i default then none else some (sets.set i narrowed)

variable (positions : List (Slot × Slot))

/-- Each position from both sides. -/
def facing : List (Slot × Slot) :=
  positions.flatMap fun position => [position, position.swap]

/-! ## The collision -/

inductive SnmpCollision
  /-- Both render this OID, when the labels take these values: each label once,
  with its arc in the first template it appears in and, when it renders as another
  in the second template, that arc too. -/
  | oid (oid : String) (values : List (Text × Nat × Option Nat)) (exact : Bool)
  /-- A template has a string index and one object is a front of the other. -/
  | nested

/-- The arcs joined by `.`. -/
def dotted (arcs : List Nat) : String := ".".intercalate (arcs.map toString)

def slotsOf : List Slot :=
  positions.flatMap fun position => [position.1, position.2]

def occupied (i : Nat) : Nat :=
  (slotsOf positions).countP fun slot => slot.set == some i

def exactAt (sets : List ArcSet) (position : Slot × Slot) : Bool :=
  let keptWhole := [position.1, position.2].any fun slot =>
    slot.set.any fun i => !(sets.getD i default).counters.isEmpty
  !keptWhole || [position.1, position.2].all fun slot =>
    slot.set.any fun i => occupied positions i == 1

/-- A label's arc is the one at its first position. -/
def nameArc (side : Side) (slot : Slot) (arc : Nat) (arcs : List ((Side × Text) × Nat)) :
    List ((Side × Text) × Nat) :=
  match slot.arc with
  | .label label =>
    if arcs.any fun named => decide (named.1 = (side, label)) then arcs
    else arcs ++ [((side, label), arc)]
  | _ => arcs

def nameArcs : List ((Slot × Slot) × Nat) → List ((Side × Text) × Nat) → List ((Side × Text) × Nat)
  | [], arcs => arcs
  | (position, arc) :: rest, arcs =>
    nameArcs rest (nameArc .other position.2 arc (nameArc .own position.1 arc arcs))

def firstArc (arcs : List ((Side × Text) × Nat)) (side : Side) (label : Text) : Option Nat :=
  (arcs.find? fun named => decide (named.1 = (side, label))).map Prod.snd

/-- Each label once, in the order the positions name them. -/
def nameValues (arcs : List ((Side × Text) × Nat)) :
    List ((Side × Text) × Nat) → List (Text × Nat × Option Nat) → List (Text × Nat × Option Nat)
  | [], values => values
  | ((_, label), _) :: rest, values =>
    if values.any fun named => decide (named.1 = label) then nameValues arcs rest values
    else
      let own := firstArc arcs .own label
      let other := firstArc arcs .other label
      match own.or other with
      | none => nameValues arcs rest values
      | some arc =>
        let second := other.filter fun second => own.any fun first => decide (first ≠ second)
        nameValues arcs rest (values ++ [(label, arc, second)])

/-- What the narrowed sets say of the two templates. -/
def collisionOf (sets : List ArcSet) : Option SnmpCollision :=
  if sets.any ArcSet.isEmpty then none
  else
    match positions.mapM fun position => (setOf sets position.1).common (setOf sets position.2) with
    | none => none
    | some oid =>
      let arcs := nameArcs (positions.zip oid) []
      some (.oid (dotted oid) (nameValues arcs arcs []) (positions.all (exactAt positions sets)))

/-- `none` when `fuel` passes are not enough. -/
def snmpCollision (fuel : Nat) (own other : OidTemplate) (labelValueSet : Text → Option LabelValueSet) :
    Option (Option SnmpCollision) :=
  if own.hasStringIndex || other.hasStringIndex then
    let (a, b) := (own.object.arcs, other.object.arcs)
    some (if a.isPrefixOf b || b.isPrefixOf a then some .nested else none)
  else if own.arcs.length ≠ other.arcs.length then some none
  else
    let (positions, labels) := positionsOf labelValueSet (own.arcs.zip other.arcs) ⟨[], []⟩
    (settle narrowSlot (facing positions) fuel labels.sets).map (collisionOf positions)

end Sonda.Config
