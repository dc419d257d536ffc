import Sonda.Impl.Config.LabelValues

/-!
# How value sets meet

`LabelValueSet::meets` and `meets_value` of `sonda-core/src/config/mod.rs`, and
from `util.rs` the inverse of the mixer behind the values of a `random` spike. A set
is compared part by part; a counter and a random spike of more than
`maxEnumeratedSpike` values only by the shape of the spike's values.
-/

namespace Sonda.Config

open Framework

/-! ## The mixer backwards -/

/-- The loop of `unxorshift`. `known` grows by `shift` each round, so 64 rounds are
enough. -/
def unxorshiftFrom (z : UInt64) (shift : Nat) : (fuel known : Nat) → UInt64 → UInt64
  | 0, _, x => x
  | fuel + 1, known, x =>
    if known < 64 then
      unxorshiftFrom z shift fuel (known + shift) (z ^^^ (x >>> UInt64.ofNat shift))
    else x

/-- The `x` with `x ^ (x >> shift) == z`. -/
def unxorshift (z : UInt64) (shift : Nat) : UInt64 := unxorshiftFrom z shift 64 shift z

/-- The inverse of an odd number modulo 2^64, by five steps of Newton's iteration. -/
def inverseOfOdd (a : UInt64) : UInt64 := Nat.repeat (fun x => x * (2 - a * x)) 5 a

def splitmix64Mix1Inverse : UInt64 := inverseOfOdd splitmix64Mix1
def splitmix64Mix2Inverse : UInt64 := inverseOfOdd splitmix64Mix2

def splitmix64Inverse (z : UInt64) : UInt64 :=
  let z := unxorshift z 31 * splitmix64Mix2Inverse
  let z := unxorshift z 27 * splitmix64Mix1Inverse
  unxorshift z 30 - splitmix64Gamma

/-- The index whose hash under `seed` is `hash`. -/
def randomSpikeIndex (seed hash : UInt64) : UInt64 := splitmix64Inverse hash ^^^ seed

/-! ## Texts of counters and random spikes -/

def isLowerHexDigit (b : UInt8) : Bool := isDigit b || (0x61 ≤ b && b ≤ 0x66)

def isLowerHex (s : Text) : Bool := s.all isLowerHexDigit

/-- The number `value` is in a counter with `lead`. -/
def counterIndex (lead value : Text) : Option Nat :=
  (stripPrefix lead value).bind fun digits =>
    if !digits.isEmpty && digits.all isDigit && (digits == [0x30] || digits.head? != some 0x30) then
      parseU128 digits
    else none

/-- `value` is `lead` followed by 16 lowercase hexadecimal digits. -/
def hasShape (lead value : Text) : Bool :=
  (stripPrefix lead value).any fun rest => rest.length == 16 && isLowerHex rest

def hexValue (b : UInt8) : Nat := if isDigit b then b.toNat - 0x30 else b.toNat - 0x57

/-- `u64::from_str_radix` of lowercase hexadecimal digits. -/
def parseHex (digits : Text) : Option UInt64 :=
  let value := ofBe 16 (digits.map hexValue)
  if value < 2 ^ 64 then some (UInt64.ofNat value) else none

def shapeHash (lead value : Text) : Option UInt64 :=
  if !hasShape lead value then none else parseHex (value.drop lead.length)

/-! ## Pairs of parts -/

/-- The loop of `min_xor_below`, with `bit` bits left to walk. -/
def minXorFrom (limit c : UInt64) : (bit : Nat) → (smallest : UInt64) → UInt64
  | 0, smallest => smallest
  | bit + 1, smallest =>
    let wanted := c >>> UInt64.ofNat bit &&& 1
    let allowed := limit >>> UInt64.ofNat bit &&& 1
    if wanted > allowed then minXorFrom limit c bit (smallest ||| 1 <<< UInt64.ofNat bit)
    else if wanted < allowed then smallest
    else minXorFrom limit c bit smallest

/-- The smallest `i ^ c` over `i < n`. -/
def minXorBelow (n c : UInt64) : Option UInt64 :=
  if n = 0 then none else some (minXorFrom (n - 1) c 64 0)

def randomSpikesMeet (count otherCount seeds : UInt64) : Bool :=
  (minXorBelow count seeds).any fun smallest => smallest < otherCount

def countersShare (a b : Text × UInt64) : Bool :=
  let (short, long) := if a.1.length ≤ b.1.length then (a, b) else (b, a)
  if short.2 == 0 || long.2 == 0 then false
  else
    match stripPrefix short.1 long.1 with
    | none => false
    | some digits =>
      if digits.isEmpty then true
      else if !digits.all isDigit || digits.head? == some 0x30 then false
      else
        (parseU128 digits).any fun lead =>
          decide (lead * 10 < 2 ^ 128) && decide (lead * 10 < short.2.toNat)

/-- A counter holds a value of the shape `shape` followed by 16 lowercase
hexadecimal digits. -/
def counterMeetsShape (lead : Text) (cardinality : UInt64) (shape : Text) : Bool :=
  let length := shape.length + 16
  if length ≤ lead.length then false
  else
    let digits := length - lead.length
    match stripPrefix shape lead with
    | some tail =>
      if !isLowerHex tail then false
      else
        let smallest := if digits = 1 then 0 else 10 ^ (digits - 1)
        decide (smallest < 2 ^ 128) && decide (smallest < cardinality.toNat)
    | none =>
      match stripPrefix lead shape with
      | some front =>
        if !front.all isDigit || front.head? == some 0x30 then false
        else
          (parseU128 front).any fun front =>
            decide (front * 10 ^ 16 < 2 ^ 128) && decide (front * 10 ^ 16 < cardinality.toNat)
      | none => false

/-! ## Sets -/

def maxEnumeratedSpike : UInt64 := 65536

/-- How two sets, or a set and one value, meet: from not at all to certainly. -/
inductive Overlap
  | disjoint
  | byShape
  | certain
  deriving DecidableEq

namespace Overlap

def rank : Overlap → Nat
  | disjoint => 0
  | byShape => 1
  | certain => 2

def max (a b : Overlap) : Overlap := if a.rank ≤ b.rank then b else a

/-- `max().unwrap_or(Disjoint)`. -/
def best (overlaps : List Overlap) : Overlap := overlaps.foldr max disjoint

end Overlap

inductive ValuePart
  | listed (values : List Text)
  | counter (lead : Text) (cardinality : UInt64)
  | random (lead : Text) (seed cardinality : UInt64)

namespace ValuePart

def meetsValue (part : ValuePart) (value : Text) : Overlap :=
  let found :=
    match part with
    | listed values => values.any fun v => v == value
    | counter lead cardinality => (counterIndex lead value).any fun i => i < cardinality.toNat
    | random lead seed cardinality =>
      (shapeHash lead value).any fun hash => randomSpikeIndex seed hash < cardinality
  if found then .certain else .disjoint

def counterMeetsRandom (lead : Text) (cardinality : UInt64) (shape : Text) (seed count : UInt64) :
    Overlap :=
  if count > maxEnumeratedSpike then
    if counterMeetsShape lead cardinality shape then .byShape else .disjoint
  else if counterMeetsShape lead cardinality shape &&
      (List.range count.toNat).any fun i =>
        (counterIndex lead (randomSpikeValue shape seed (UInt64.ofNat i))).any fun n =>
          n < cardinality.toNat then .certain
  else .disjoint

def meets : ValuePart → ValuePart → Overlap
  | listed values, part | part, listed values => .best (values.map part.meetsValue)
  | counter a n, counter b m => if countersShare (a, n) (b, m) then .certain else .disjoint
  | counter lead cardinality, random shape seed count
  | random shape seed count, counter lead cardinality =>
    counterMeetsRandom lead cardinality shape seed count
  | random a x n, random b y m =>
    if a == b && randomSpikesMeet n m (x ^^^ y) then .certain else .disjoint

end ValuePart

namespace LabelValueSet

/-- The parts of a set, through the `outside` of every spike. -/
def parts : LabelValueSet → List ValuePart
  | .static value => [.listed [value]]
  | .values vs => [.listed vs]
  | .counter lead cardinality => [.counter lead cardinality]
  | .spikeCounter lead cardinality outside =>
    .counter lead cardinality ::
      match outside with
      | some set => set.parts
      | none => []
  | .randomShape lead seed cardinality outside =>
    .random lead seed cardinality ::
      match outside with
      | some set => set.parts
      | none => []

def meetsValue (set : LabelValueSet) (value : Text) : Overlap :=
  .best (set.parts.map fun part => part.meetsValue value)

def meets (set other : LabelValueSet) : Overlap :=
  .best (set.parts.flatMap fun mine => other.parts.map mine.meets)

/-- The set holds a random spike that meets a counter by shape only. -/
def comparedByShape (set : LabelValueSet) : Bool :=
  set.parts.any fun part =>
    match part with
    | .random _ _ cardinality => cardinality > maxEnumeratedSpike
    | _ => false

end LabelValueSet

end Sonda.Config
