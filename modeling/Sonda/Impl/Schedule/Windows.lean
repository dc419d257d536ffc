import Sonda.Framework.Doubles

/-!
# The windows of a schedule

The recurring gap, the one-shot gap windows and the burst window of
`sonda-core/src/schedule/mod.rs`, with what the schedule loop asks of them.
Instants and durations are naturals of nanoseconds. Where the source goes
through seconds in `f64` (`%` of a cycle, a multiple or a fraction of an
interval), so does the model.

Validation rejects a recurring window that is not shorter than its period,
and a multiplier that is not positive, so both are fields of the windows.
-/

namespace Sonda.Schedule

open Framework

/-! ## Durations and seconds -/

/-- One more than the longest `Duration`. -/
def durationBound : Nat := 2 ^ 64 * 10 ^ 9

/-- `Duration::as_secs_f64`. -/
def asSecs (duration : Nat) : Double :=
  .add (.ofNat (duration / 10 ^ 9)) (.div (.ofNat (duration % 10 ^ 9)) (.ofNat (10 ^ 9)))

/-- `Duration::from_secs_f64`, which panics on what is not below
`durationBound`. -/
def fromSecs (secs : Double) : Nat := roundDiv (secs.units * 10 ^ 9) Double.one

/-- `Duration::mul_f64` by a whole number, which panics like `fromSecs`. -/
def mulF64 (duration n : Nat) : Nat := fromSecs (.mul (.ofNat n) (asSecs duration))

/-! ## Windows -/

/-- A recurring silent period: the last `duration` of every `every`. -/
structure GapWindow where
  every : Nat
  duration : Nat
  /-- `validate_config` requires `gaps.for < gaps.every`. -/
  lt : duration < every

/-- A recurring period of a higher rate: the first `duration` of every
`every`. -/
structure BurstWindow where
  every : Nat
  duration : Nat
  multiplier : Double
  /-- `validate_burst_config` requires `bursts.for < bursts.every`. -/
  lt : duration < every
  /-- `validate_burst_config` requires a positive multiplier. -/
  pos : 0 < multiplier.units

/-- A silent window at a fixed offset from the start of the scenario. -/
structure OneShotGap where
  atOffset : Nat
  duration : Nat
  deriving DecidableEq

/-- The offset at which the window ends, exclusive. -/
def OneShotGap.endOffset (w : OneShotGap) : Nat := w.atOffset + w.duration

def OneShotGap.covers (w : OneShotGap) (elapsed : Nat) : Bool :=
  w.atOffset ≤ elapsed && elapsed < w.endOffset

def lastEnd (windows : List OneShotGap) : Nat := windows.foldr (fun w m => max w.endOffset m) 0

variable (elapsed : Nat)

/-- The seconds of `elapsed` in its cycle. -/
def cyclePos (every : Nat) : Double := .rem (asSecs elapsed) (asSecs every)

def isInGap (gap : GapWindow) : Bool :=
  (Double.sub (asSecs gap.every) (asSecs gap.duration)).units ≤ (cyclePos elapsed gap.every).units

def timeUntilGapEnd (gap : GapWindow) : Nat :=
  fromSecs (.sub (asSecs gap.every) (cyclePos elapsed gap.every))

def isInGapWindow (windows : List OneShotGap) : Bool :=
  windows.any (·.covers elapsed)

def isInBurst (burst : BurstWindow) : Option Double :=
  if (cyclePos elapsed burst.every).units < (asSecs burst.duration).units then some burst.multiplier
  else none

/-- One pass of the walk of `time_until_gap_window_end` over the windows. -/
def gapWindowPass (windows : List OneShotGap) (cursor : Nat) : Nat :=
  windows.foldl (fun c w => if w.covers c then w.endOffset else c) cursor

/-- The walk of `time_until_gap_window_end`: passes over the windows while
one moves the cursor. Each window moves it at most once, so
`windows.length + 1` passes are all there are (`gapWindowWalk_clear`). -/
def gapWindowWalk (windows : List OneShotGap) : Nat → Nat → Nat
  | 0, cursor => cursor
  | fuel + 1, cursor =>
    if gapWindowPass windows cursor = cursor then cursor
    else gapWindowWalk windows fuel (gapWindowPass windows cursor)

def timeUntilGapWindowEnd (windows : List OneShotGap) : Nat :=
  gapWindowWalk windows (windows.length + 1) elapsed - elapsed

def burstInterval (baseInterval : Nat) (multiplier : Double) : Nat :=
  fromSecs (.div (asSecs baseInterval) multiplier)

end Sonda.Schedule
