import Sonda.Impl.Generator.Generators

/-!
# Threshold crossings

The pure timing math of `sonda-core/src/compiler/timing.rs`: for each generator, the
time in seconds at which its output first crosses a threshold. `f64` arithmetic is
exact; how a number is shown is the parameter `num`.
-/

namespace Sonda.Compiler

open Framework
open Config (Text)

inductive Operator
  | lessThan
  | greaterThan
  deriving DecidableEq

namespace Operator

/-- `Display`. -/
def text : Operator → String
  | lessThan => "<"
  | greaterThan => ">"

def opposite : Operator → Operator
  | lessThan => greaterThan
  | greaterThan => lessThan

def holds (op : Operator) (value threshold : ℚ) : Bool :=
  match op with
  | lessThan => value < threshold
  | greaterThan => value > threshold

end Operator

inductive TimingError
  | outOfRange (message : String)
  | ambiguous (message : String)
  | unsupported (message : String)
  | invalidDuration (field : String) (input : Text) (reason : String)

section

variable (num : ℚ → String)

/-! ## Flap -/

/-- How far into its cycle a flap starts. -/
def intoCycle (upSecs downSecs phaseSecs : ℚ) : ℚ :=
  if 0 < upSecs + downSecs ∧ 0 < phaseSecs then residue phaseSecs (upSecs + downSecs) else 0

def startsUp (upSecs downSecs phaseSecs : ℚ) : Bool :=
  intoCycle upSecs downSecs phaseSecs = 0 || intoCycle upSecs downSecs phaseSecs < upSecs

variable (op : Operator) (threshold upSecs downSecs upValue downValue phaseSecs : ℚ)

/-- The message of a flap that starts where the comparison holds. -/
def flapSatisfied : String :=
  let into := intoCycle upSecs downSecs phaseSecs
  let (state, field, value, otherState, otherField, otherValue) :=
    if startsUp upSecs downSecs phaseSecs then
      ("up", "up_value", upValue, "down", "down_value", downValue)
    else ("down", "down_value", downValue, "up", "up_value", upValue)
  let start :=
    if into > 0 then
      "the phase starts it " ++ num into ++ "s into the cycle, in the " ++ state ++ " state"
    else "it starts in the " ++ state ++ " state"
  let hint :=
    if otherValue ≠ threshold then
      ". Use \"" ++ op.opposite.text ++ "\" to detect the change to the " ++ otherState ++ " state (" ++
        otherField ++ " " ++ num otherValue ++ ")"
    else ""
  "\"flap_signal " ++ op.text ++ " " ++ num threshold ++ "\" is satisfied at t=0 (" ++ start ++ " at " ++
    field ++ " " ++ num value ++ ")" ++ hint

def flapCrossingSecs : Except TimingError ℚ :=
  let into := intoCycle upSecs downSecs phaseSecs
  let starts := startsUp upSecs downSecs phaseSecs
  let (side, otherSide) := match op with
    | .lessThan => ("below", "at or above")
    | .greaterThan => ("above", "at or below")
  let both := "up_value " ++ num upValue ++ " and down_value " ++ num downValue ++ " are both "
  match op.holds upValue threshold, op.holds downValue threshold with
  | false, false =>
    .error (.outOfRange (both ++ otherSide ++ " threshold " ++ num threshold ++
      "; the flap signal is never " ++ side ++ " it"))
  | true, true =>
    .error (.ambiguous (both ++ side ++ " threshold " ++ num threshold ++ "; the flap signal is always " ++
      side ++ " it (satisfied at t=0)"))
  | upHolds, downHolds =>
    if (if starts then upHolds else downHolds) then
      .error (.ambiguous (flapSatisfied num op threshold upSecs downSecs upValue downValue phaseSecs))
    else if starts then .ok (upSecs - into)
    else .ok (upSecs + downSecs - into)

/-! ## Sawtooth -/

/-- `f64::EPSILON`. -/
def epsilon : ℚ := 1 / 2 ^ 52

def sawtoothCrossingSecs (threshold baseline ceiling periodSecs : ℚ) : Except TimingError ℚ :=
  let range := ceiling - baseline
  if |range| < epsilon then
    .error (.outOfRange ("baseline (" ++ num baseline ++ ") equals ceiling (" ++ num ceiling ++
      "); the signal is constant and cannot cross any threshold"))
  else
    let (lo, hi) := if baseline ≤ ceiling then (baseline, ceiling) else (ceiling, baseline)
    match op with
    | .greaterThan =>
      if threshold ≥ hi then
        .error (.outOfRange ("threshold " ++ num threshold ++ " is at or above ceiling " ++ num ceiling ++
          "; the signal never exceeds it"))
      else if threshold < lo then
        .error (.ambiguous ("threshold " ++ num threshold ++ " is below baseline " ++ num baseline ++
          "; the signal starts above it (satisfied at t=0)"))
      else
        let fraction := (threshold - baseline) / range
        .ok (fraction * periodSecs)
    | .lessThan =>
      if threshold ≤ lo then
        .error (.outOfRange ("threshold " ++ num threshold ++ " is at or below baseline " ++
          num baseline ++ "; the signal never drops below it"))
      else if threshold > hi then
        .error (.ambiguous ("threshold " ++ num threshold ++ " is above ceiling " ++ num ceiling ++
          "; the signal is always below it (satisfied at t=0)"))
      else if baseline < threshold then
        .error (.ambiguous ("signal starts at baseline " ++ num baseline ++
          " which is already below threshold " ++ num threshold ++ " (satisfied at t=0)"))
      else
        .error (.outOfRange ("the sawtooth ramps from " ++ num baseline ++ " toward " ++ num ceiling ++
          "; it does not cross below " ++ num threshold ++ " during the ramp"))

/-! ## Spike -/

def spikeCrossingSecs (threshold baseline spikeHeight spikeDurationSecs : ℚ) : Except TimingError ℚ :=
  let peak := baseline + spikeHeight
  let lo := min baseline peak
  let hi := max baseline peak
  match op with
  | .greaterThan =>
    if threshold ≥ hi then
      .error (.outOfRange ("threshold " ++ num threshold ++ " is at or above peak value " ++ num peak ++
        "; the signal never exceeds it"))
    else if threshold < lo then
      .error (.ambiguous ("threshold " ++ num threshold ++ " is below baseline " ++ num baseline ++
        "; the signal is always above it (satisfied at t=0)"))
    else if peak > threshold then
      .error (.ambiguous ("\"> " ++ num threshold ++ "\" is satisfied at t=0 (spike starts immediately " ++
        "at peak " ++ num peak ++ "). Use \"<\" to detect when the spike ends"))
    else
      .error (.outOfRange ("peak " ++ num peak ++ " does not exceed threshold " ++ num threshold))
  | .lessThan =>
    if threshold ≤ lo then
      .error (.outOfRange ("threshold " ++ num threshold ++ " is at or below baseline " ++ num baseline ++
        "; the signal never drops below it"))
    else if threshold > hi then
      .error (.ambiguous ("threshold " ++ num threshold ++ " is above peak " ++ num peak ++
        "; the signal is always below it (satisfied at t=0)"))
    else if baseline < threshold then .ok spikeDurationSecs
    else
      .error (.outOfRange ("baseline " ++ num baseline ++ " is not below threshold " ++ num threshold ++
        "; the signal does not cross below it when the spike ends"))

def steadyCrossingSecs : Except TimingError ℚ :=
  .error (.unsupported ("cannot compute crossing for \"steady\" behavior -- sine waves cross any " ++
    "threshold twice per period, making the result ambiguous. Use explicit phase_offset instead"))

/-! ## Step -/

/-- The first tick whose value is above the threshold, on the first pass. -/
def crossingTick (threshold start stepSize : ℚ) : ℚ :=
  let ticks : ℚ := ⌈(threshold - start) / stepSize⌉
  if ticks ≤ 0 then 1
  else if start + ticks * stepSize ≤ threshold then ticks + 1
  else ticks

def stepCrossingSecs (threshold start stepSize : ℚ) (max : Option ℚ) (rate : ℚ) :
    Except TimingError ℚ :=
  if rate ≤ 0 then
    .error (.outOfRange ("step rate " ++ num rate ++ " must be positive and finite"))
  else
    match op with
    | .lessThan =>
      .error (.unsupported ("step generator does not support `< threshold`; " ++
        "the value is monotonically non-decreasing"))
    | .greaterThan =>
      if stepSize = 0 then .error (.outOfRange "step_size is 0; the signal never advances")
      else if stepSize < 0 then
        .error (.outOfRange ("step_size " ++ num stepSize ++
          " is negative; the signal moves away from `> threshold`"))
      else if start > threshold then
        .error (.ambiguous ("step generator starts at " ++ num start ++ " which already exceeds threshold " ++
          num threshold ++ " (satisfied at t=0)"))
      else
        let ticks := crossingTick threshold start stepSize
        match max.filter fun m => start < m with
        | some m =>
          if m ≤ threshold then
            .error (.outOfRange ("step wraps at " ++ num m ++ " which is at or below threshold " ++
              num threshold ++ "; the signal never exceeds it"))
          else if start + ticks * stepSize ≥ m then
            .error (.outOfRange ("step wraps at " ++ num m ++ " before reaching threshold " ++
              num threshold))
          else .ok (ticks / rate)
        | none => .ok (ticks / rate)

/-! ## Sequence -/

/-- The scan of the values, from the `i`-th on. -/
def sequenceScan (op : Operator) (threshold rate : ℚ) : (i : Nat) → List ℚ → Except TimingError ℚ
  | _, [] =>
    .error (.outOfRange ("no value in the sequence satisfies \"" ++ op.text ++ " " ++ num threshold ++
      "\"; the signal never crosses"))
  | i, v :: rest =>
    if op.holds v threshold then
      if i = 0 then
        .error (.ambiguous ("sequence starts at " ++ num v ++ " which already satisfies \"" ++ op.text ++
          " " ++ num threshold ++ "\" (satisfied at t=0)"))
      else .ok (i / rate)
    else sequenceScan op threshold rate (i + 1) rest

def sequenceCrossingSecs (threshold : ℚ) (values : List ℚ) (rate : ℚ) : Except TimingError ℚ :=
  if rate ≤ 0 then
    .error (.outOfRange ("sequence rate " ++ num rate ++ " must be positive and finite"))
  else if values.isEmpty then
    .error (.outOfRange "sequence has no values; no crossing is possible")
  else sequenceScan num op threshold rate 0 values

/-! ## The others -/

def constantCrossingSecs (threshold value : ℚ) : Except TimingError ℚ :=
  if op.holds value threshold then
    .error (.ambiguous ("constant generator emits " ++ num value ++ "; \"" ++ op.text ++ " " ++
      num threshold ++ "\" is satisfied at t=0"))
  else
    .error (.outOfRange ("constant generator emits " ++ num value ++ "; it never crosses \"" ++ op.text ++
      " " ++ num threshold ++ "\""))

def sineCrossingSecs : Except TimingError ℚ :=
  .error (.unsupported ("sine generator is not supported as an `after` target: sine waves cross any " ++
    "threshold twice per period, making the crossing direction ambiguous"))

def uniformCrossingSecs : Except TimingError ℚ :=
  .error (.unsupported ("uniform generator is not supported as an `after` target: the output is " ++
    "non-deterministic, so no crossing time can be computed"))

def csvReplayCrossingSecs : Except TimingError ℚ :=
  .error (.unsupported ("csv_replay generator is not supported as an `after` target: the output " ++
    "depends on external data, so no crossing time can be computed"))

end

end Sonda.Compiler
