import Sonda.Impl.Snmp.OidTemplate

/-!
# Value types

`SnmpValueType::write` and `write_label_text` of
`sonda-core/src/encoder/snmp/value.rs`. What the standard library does with an
`f64` is a `StdFloat`.
-/

namespace Sonda.Snmp

/-- The operations of the standard library on `f64`. -/
structure StdFloat (F : Type) where
  isFinite : F → Bool
  /-- The nearest integer of a finite value, halves away from zero. -/
  round : F → Int
  /-- Whether `fract` is zero. -/
  isWhole : F → Bool
  /-- The octets of the value as an `f32`, if that is finite. -/
  single : F → Option Octets
  toBeBytes : F → Octets
  display : F → Text
  /-- The text of the rounded value. -/
  displayRounded : F → Text
  parse : Text → Option F
  length_single : ∀ value octets, single value = some octets → octets.length = 4
  length_toBeBytes : ∀ value, (toBeBytes value).length = 8

inductive SnmpValueType
  | integer
  | counter32
  | counter64
  | gauge32
  | unsigned32
  | timeTicks
  | string
  | opaqueFloat
  | opaqueDouble
  | ipAddress
  | enum (labels : List (Int × Text))
  deriving DecidableEq

namespace SnmpValueType

def name : SnmpValueType → String
  | integer => "integer"
  | counter32 => "counter32"
  | counter64 => "counter64"
  | gauge32 => "gauge32"
  | unsigned32 => "unsigned32"
  | timeTicks => "timeticks"
  | string => "string"
  | opaqueFloat => "opaque_float"
  | opaqueDouble => "opaque_double"
  | ipAddress => "ipaddress"
  | enum _ => "enum"

def rounds : SnmpValueType → Bool
  | integer | counter32 | counter64 | gauge32 | unsigned32 | timeTicks | ipAddress | enum _ => true
  | string | opaqueFloat | opaqueDouble => false

def isEnum : SnmpValueType → Bool
  | enum _ => true
  | _ => false

end SnmpValueType

variable {F : Type}

inductive ValueError (F : Type)
  | nonFinite (ty : String) (value : F)
  | outOfRange (ty : String) (value : F)
  | format (value : F)
  | noEnumEntry (value : F)

def ValueError.text (f64 : StdFloat F) : ValueError F → String
  | .nonFinite ty value => "value " ++ str (f64.display value) ++ " cannot be encoded as " ++ ty
  | .outOfRange ty value => "value " ++ str (f64.display value) ++ " is outside the " ++ ty ++ " range"
  | .format value => "value " ++ str (f64.display value) ++ " could not be formatted as a string"
  | .noEnumEntry value => "value " ++ str (f64.display value) ++ " rounds to " ++
      str (f64.displayRounded value) ++ ", which has no entry in the enum map"

/-- Room for the text of an `f64`. -/
def f64TextCapacity : Nat := 400

section write

variable (f64 : StdFloat F) (ty : SnmpValueType) (value : F)

def finite : Except (ValueError F) F :=
  if f64.isFinite value then .ok value else .error (.nonFinite ty.name value)

/-- The rounded value, if it is from `lo` up to, not including, `hi`. -/
def rounded (ty : SnmpValueType) (value : F) (lo hi : Int) : Except (ValueError F) Int := do
  let value ← finite f64 ty value
  let rounded := f64.round value
  if lo ≤ rounded ∧ rounded < hi then .ok rounded else .error (.outOfRange ty.name value)

def roundedI32 : Except (ValueError F) Int :=
  rounded f64 ty value (-2147483648) 2147483648

def roundedU32 : Except (ValueError F) Nat :=
  (rounded f64 ty value 0 4294967296).map Int.toNat

def roundedU64 : Except (ValueError F) Nat :=
  (rounded f64 ty value 0 18446744073709551616).map Int.toNat

def formatF64 (value : F) : Except (ValueError F) Text :=
  let text := f64.display value
  if f64TextCapacity < text.length then .error (.format value) else .ok text

/-- The TLV of `value` appended to `out`. -/
def SnmpValueType.write (out : Octets) : Except (ValueError F) Octets :=
  match ty with
  | .integer => (roundedI32 f64 ty value).map (writeInteger out)
  | .counter32 => (roundedU32 f64 ty value).map (writeCounter32 out)
  | .gauge32 | .unsigned32 => (roundedU32 f64 ty value).map (writeU64 out .gauge32)
  | .timeTicks => (roundedU32 f64 ty value).map (writeTimeticks out)
  | .counter64 => (roundedU64 f64 ty value).map (writeU64 out .counter64)
  | .string => (formatF64 f64 value).map (writeString out)
  | .opaqueFloat => do
    let value ← finite f64 ty value
    match f64.single value with
    | some octets => .ok (writeHeader out .opaqueValue 7 ++ [0x9F, 0x78, 0x04] ++ octets)
    | none => .error (.outOfRange ty.name value)
  | .opaqueDouble => do
    let value ← finite f64 ty value
    .ok (writeHeader out .opaqueValue 11 ++ [0x9F, 0x79, 0x08] ++ f64.toBeBytes value)
  | .ipAddress => (roundedU32 f64 ty value).map fun v => writeOctets out .ipAddress (beOctets 4 v)
  | .enum labels => do
    let finite ← finite f64 ty value
    let code := f64.round finite
    match if -9223372036854775808 ≤ code ∧ code < 9223372036854775808
        then labels.find? (fun entry => entry.1 == code) else none with
    | some entry => .ok (writeString out entry.2)
    | none => .error (.noEnumEntry value)

/-- Why a label's text is not served. -/
structure ColumnError where
  label : Text
  ty : String
  text : Text
  reason : String
  deriving DecidableEq

def ColumnError.message (std : StdText) (e : ColumnError) : String :=
  "label `" ++ str e.label ++ "` has value " ++ std.quote e.text ++ ", which its " ++ e.ty ++
    " column cannot serve: " ++ e.reason

def enumColumnRefused : String :=
  "the enum type is refused for a label column: a column serves the label's own text, and an enum " ++
    "would map a code the label does not carry"

/-- The text of `label` appended to `out` as the value of its column. -/
def writeLabelText (ty : Option SnmpValueType) (label text : Text) (out : Octets) :
    Except ColumnError Octets :=
  let refused (ty : SnmpValueType) (reason : String) : ColumnError := ⟨label, ty.name, text, reason⟩
  match ty with
  | none | some .string => .ok (writeString out text)
  | some (.enum labels) => .error (refused (.enum labels) enumColumnRefused)
  | some ty =>
    match f64.parse text with
    | none => .error (refused ty "it is not a number")
    | some value =>
      if ty.rounds && f64.isFinite value && !f64.isWhole value then
        .error (refused ty "it has a fractional part")
      else
        match ty.write f64 value out with
        | .ok out => .ok out
        | .error e => .error (refused ty (e.text f64))

end write

end Sonda.Snmp
