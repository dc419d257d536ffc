import Sonda.Framework.Decimal

/-!
# The values a label can take

`LabelValueSet` of `sonda-core/src/config/mod.rs`, what an entry gives a label
key over its run, and the values of a `random` cardinality spike, from
`sonda-core/src/util.rs`. A text is its octets.
-/

namespace Sonda.Config

open Framework

abbrev Text := List UInt8

def stripPrefix (lead text : Text) : Option Text :=
  if lead.isPrefixOf text then some (text.drop lead.length) else none

/-- `parse::<u128>` of a run of digits. -/
def parseU128 (digits : Text) : Option Nat :=
  if decimalValue digits < 2 ^ 128 then some (decimalValue digits) else none

/-! ## The values of a random spike -/

def splitmix64Gamma : UInt64 := 0x9e3779b97f4a7c15
def splitmix64Mix1 : UInt64 := 0xbf58476d1ce4e5b9
def splitmix64Mix2 : UInt64 := 0x94d049bb133111eb

def splitmix64 (z : UInt64) : UInt64 :=
  let z := z + splitmix64Gamma
  let z := (z ^^^ (z >>> 30)) * splitmix64Mix1
  let z := (z ^^^ (z >>> 27)) * splitmix64Mix2
  z ^^^ (z >>> 31)

def randomSpikeHash (seed index : UInt64) : UInt64 := splitmix64 (seed ^^^ index)

/-- `n` as 16 lowercase hexadecimal digits. -/
def hex16 (n : UInt64) : Text := (beDigits 16 16 n.toNat).map fun d => octetOf d.digitChar

def randomSpikeValue (lead : Text) (seed index : UInt64) : Text :=
  lead ++ hex16 (randomSpikeHash seed index)

/-! ## Value sets -/

/-- The values a label key can take on an entry's events. A spike holds what the
key has while its window is open and, in `outside`, what it has while it is
closed. -/
inductive LabelValueSet
  | static (value : Text)
  | values (values : List Text)
  /-- `lead` followed by each of `0` to `cardinality - 1`. -/
  | counter (lead : Text) (cardinality : UInt64)
  | spikeCounter (lead : Text) (cardinality : UInt64) (outside : Option LabelValueSet)
  | randomShape (lead : Text) (seed : UInt64) (cardinality : UInt64) (outside : Option LabelValueSet)

def CounterValue (lead : Text) (cardinality : UInt64) (value : Text) : Prop :=
  ∃ i < cardinality.toNat, value = lead ++ decimal i

def RandomValue (lead : Text) (seed cardinality : UInt64) (value : Text) : Prop :=
  ∃ i < cardinality, value = randomSpikeValue lead seed i

/-- An event can carry `value`. -/
def LabelValueSet.Holds : LabelValueSet → Text → Prop
  | .static v, value => value = v
  | .values vs, value => value ∈ vs
  | .counter lead cardinality, value => CounterValue lead cardinality value
  | .spikeCounter lead cardinality outside, value =>
    CounterValue lead cardinality value ∨
      match outside with
      | some set => set.Holds value
      | none => False
  | .randomShape lead seed cardinality outside, value =>
    RandomValue lead seed cardinality value ∨
      match outside with
      | some set => set.Holds value
      | none => False

end Sonda.Config
