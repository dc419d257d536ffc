import Mathlib.Data.Rat.Floor
import Sonda.Impl.Config.LabelValues
import Sonda.Impl.Schedule.ScheduleLoop

/-!
# Durations

`parse_duration`, `parse_offset_duration` and `parse_phase_offset` of
`sonda-core/src/config/validate.rs`. A duration is a natural of nanoseconds. `f64` numbers are
exact: what `str::parse::<f64>` reads is a rational, an infinity or no number at all, and the
arithmetic on it is that of the rationals.
-/

namespace Sonda.Config

open Framework
open Sonda.Schedule (SondaError)

/-- What `str::parse::<f64>` can read. -/
inductive Number
  | finite (value : ℚ)
  | infinite
  | nan

/-- How the standard library shows and reads texts. -/
structure StdParse where
  /-- A text in quotes, escaped. -/
  quote : Text → String
  parseF64 : Text → Option Number
  /-- A text without the white space around it. -/
  trim : Text → Text
  showF64 : ℚ → Text
  /-- Digits are read as the number they stand for. -/
  digits : ∀ ds, ds ≠ [] → (∀ b ∈ ds, isDigit b = true) → parseF64 ds = some (.finite (decimalValue ds))

/-- A text of the source, as a string. -/
def textString (text : Text) : String := (String.fromUTF8? ⟨text.toArray⟩).getD ""

def stripSuffix (tail text : Text) : Option Text :=
  if tail.isSuffixOf text then some (text.take (text.length - tail.length)) else none

/-- The numeric part, and the milliseconds of the unit. -/
def durationUnit (s : Text) : Option (Text × ℚ) :=
  match stripSuffix [0x6d, 0x73] s with
  | some stripped => some (stripped, 1)
  | none =>
    match stripSuffix [0x68] s with
    | some stripped => some (stripped, 3600000)
    | none =>
      match stripSuffix [0x6d] s with
      | some stripped => some (stripped, 60000)
      | none => (stripSuffix [0x73] s).map fun stripped => (stripped, 1000)

/-- `Duration::from_micros(micros as u64)`: the conversion saturates. -/
def fromMicros (micros : ℚ) : Nat := min micros.floor.toNat (2 ^ 64 - 1) * 1000

variable (std : StdParse) (s : Text)

def parseDuration : Except SondaError Nat :=
  if s.isEmpty then .error (.config "duration must not be empty")
  else
    match durationUnit s with
    | none =>
      .error (.config ("unrecognized duration unit in " ++ std.quote s ++
        ": expected one of ms, s, m, h"))
    | some (numeric, multiplier) =>
      if numeric.isEmpty then
        .error (.config ("duration " ++ std.quote s ++ " has no numeric value before the unit"))
      else if numeric.head? == some 0x2d then
        .error (.config ("duration " ++ std.quote s ++ " must be positive"))
      else
        match std.parseF64 numeric with
        | none =>
          .error (.config ("duration " ++ std.quote s ++ " has an invalid numeric part " ++
            std.quote numeric))
        | some (.finite value) =>
          if value ≤ 0 then
            .error (.config ("duration " ++ std.quote s ++ " must be greater than zero"))
          else if value * multiplier > 2 ^ 64 then
            .error (.config ("duration " ++ std.quote s ++ " overflows millisecond representation"))
          else .ok (fromMicros (value * multiplier * 1000))
        | some _ => .error (.config ("duration " ++ std.quote s ++ " must be greater than zero"))

/-- The text without a unit, or the text itself. -/
def withoutUnit (s : Text) : Text :=
  match durationUnit s with
  | some (numeric, _) => numeric
  | none => s

/-- A duration for which zero is a value too. -/
def parseOffsetDuration : Except SondaError Nat :=
  match parseDuration std s with
  | .ok d => .ok d
  | .error e =>
    let trimmed := std.trim s
    if trimmed.head? == some 0x2d then .error e
    else
      match std.parseF64 (withoutUnit trimmed) with
      | some (.finite value) => if value = 0 then .ok 0 else .error e
      | _ => .error e

/-- `as_secs_f64`. -/
def asSecs (duration : Nat) : ℚ := duration / 1000000000

/-- `to_string` of an error of `parse_duration`; they are all `Config`. -/
def errorText : SondaError → String
  | .config message => "configuration error: " ++ message
  | _ => ""

/-- A duration, or none of zero. -/
def parseOptionalDuration : Except SondaError (Option Nat) :=
  match parseDuration std s with
  | .ok d => .ok (some d)
  | .error e =>
    match std.parseF64 (((durationUnit (std.trim s)).map Prod.fst).getD []) with
    | some (.finite value) => if value = 0 then .ok none else .error e
    | _ => .error e

def parsePhaseOffset : Except SondaError (Option Nat) :=
  (parseOptionalDuration std s).mapError fun e =>
    .config ("invalid phase_offset " ++ std.quote s ++ ": " ++ errorText e)

/-- An error with what it is about; those of `parse_duration` are all `Config`. -/
def prependContext (std : StdParse) (label : String) (value : Text) : SondaError → SondaError
  | .config message => .config (label ++ " " ++ std.quote value ++ ": " ++ message)
  | other => other

end Sonda.Config
