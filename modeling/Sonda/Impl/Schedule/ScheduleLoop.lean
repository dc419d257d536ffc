import Sonda.Framework.Machine
import Sonda.Impl.Schedule.Windows

/-!
# The schedule loop

`run_schedule_loop_with_initial_tick` of `sonda-core/src/schedule/core_loop.rs`.
An iteration is cut where another task can be seen: `head` is the iteration
from the cancel check to the call of the tick callback, `settle` what the loop
does with the callback's outcome. `judge` is what `head` decides about the
instant the tick would be emitted at.

The clock is a number of nanoseconds that only moves forward; how far it
moved at each reading, when a cancel comes and what the callback returned are
in the `LoopInput`. A walk for the next tick that no silence covers searches
through the `u64`s; `none` is a walk that runs through all of them, or comes to
a slot that is no `Duration` before, where `mul_f64` panics.
-/

namespace Sonda.Schedule

open Framework

inductive OnSinkError
  | warn
  | fail
  deriving DecidableEq

inductive EncoderError
  | serializationFailed (source : String)
  | timestampBeforeEpoch (source : String)
  | notSupported (message : String)
  | eventRejected (reason : String)
  | other (message : String)
  deriving DecidableEq

inductive SondaError
  | config (message : String)
  | encoder (error : EncoderError)
  | sink (message : String)
  | generator (message : String)
  | runtime (message : String)
  | verify (message : String)
  deriving DecidableEq

/-- The schedule of a scenario, as the loop reads it. -/
structure ParsedSchedule where
  totalDuration : Option Nat := none
  gapWindow : Option GapWindow := none
  burstWindow : Option BurstWindow := none
  gapWindows : List OneShotGap := []
  replaysRecordedRows : Bool := false
  onSinkError : OnSinkError := .warn

/-- A rate of a configuration, which is an `f64`. -/
inductive Rate
  | finite (q : Double)
  | infinity
  /-- Below zero. -/
  | negative
  | nan

instance (n : Nat) : OfNat Rate n := ⟨.finite (.ofNat n)⟩

/-- The check of `validate_config`. -/
def validateRate : Rate → Bool
  | .finite q => 0 < q.units
  | .infinity => true
  | .negative => false
  | .nan => false

/-- `Duration::from_secs_f64(1.0 / rate)`, unless it panics. -/
def baseInterval : Rate → Option Nat
  | .finite q =>
    let interval := fromSecs (.div 1 q)
    if 0 < q.units ∧ interval < durationBound then some interval else none
  | .infinity => some 0
  | .negative => none
  | .nan => none

theorem baseInterval_one : (baseInterval 1).isSome = true := by decide +kernel

structure LoopConfig where
  schedule : ParsedSchedule
  rate : Rate
  /-- The run has a `stats` to publish to. -/
  hasStats : Bool := false
  /-- The loop is entered: its base interval is a `Duration`. -/
  entered : (baseInterval rate).isSome = true := by
    first | with_reducible exact baseInterval_one | decide +kernel

variable (cfg : LoopConfig)

def LoopConfig.base : Nat := (baseInterval cfg.rate).get cfg.entered

/-- The slot of the tick `n` after the first. -/
def LoopConfig.slot (n : Nat) : Nat := mulF64 cfg.base n

/-- The loop's own variables. -/
structure ScheduleLoop where
  start : Nat
  nextDeadline : Nat
  tick : Nat
  initialTick : Nat
  rateWindowTick : Nat
  rateWindowStart : Nat
  deriving DecidableEq

def ScheduleLoop.enter (initialTick now : Nat) : ScheduleLoop where
  start := now
  nextDeadline := now
  tick := initialTick
  initialTick := initialTick
  rateWindowTick := 0
  rateWindowStart := now

/-- The loop resumes on the tick `ticksElapsed` after its first. -/
def ScheduleLoop.resume (l : ScheduleLoop) (base ticksElapsed : Nat) : ScheduleLoop :=
  { l with tick := l.initialTick + ticksElapsed, nextDeadline := l.start + mulF64 base ticksElapsed }

/-! ## Which tick comes next -/

variable (schedule : ParsedSchedule)

/-- A recorded row outranks a recurring gap. -/
def hasRecordedRows : Bool :=
  schedule.replaysRecordedRows || !schedule.gapWindows.isEmpty

def stillSilent (slot : Nat) : Bool :=
  schedule.gapWindow.any (isInGap slot ·) || isInGapWindow slot schedule.gapWindows

/-- Up to `fuel` turns of a walk. A slot that is no `Duration` panics. -/
def walkTurns (base : Nat) (passes : Nat → Bool) : (fuel ticksElapsed : Nat) → Option Nat
  | 0, _ => none
  | fuel + 1, ticksElapsed =>
    if durationBound ≤ mulF64 base ticksElapsed then none
    else if passes (mulF64 base ticksElapsed) then walkTurns base passes fuel (ticksElapsed + 1)
    else some ticksElapsed

/-- The first tick at or after `ticksElapsed` whose slot is not passed over. -/
def walk (base : Nat) (passes : Nat → Bool) (ticksElapsed : Nat) : Option Nat :=
  walkTurns base passes (2 ^ 64 - ticksElapsed) ticksElapsed

/-- Row frame: the first tick that no one-shot window covers. -/
def oneShotWalk (base ticksElapsed : Nat) : Option Nat :=
  walk base (isInGapWindow · schedule.gapWindows) ticksElapsed

/-- The wall-frame walk goes past a slot. -/
def passesOver (resumedAt slot : Nat) : Bool :=
  !hasRecordedRows schedule && decide (slot < resumedAt) || stillSilent schedule slot

/-- Wall frame: the first tick that the run resumes on. -/
def resumeWalk (base resumedAt ticksElapsed : Nat) : Option Nat :=
  walk base (passesOver schedule resumedAt) ticksElapsed

/-- `x as u64`. -/
def asU64 (x : Double) : Nat := min (x.units / Double.one) (2 ^ 64 - 1)

/-- Where the wall-frame walk starts: at the owed row, or at the clock. -/
def walkStart (base resumedAt : Nat) (l : ScheduleLoop) : Nat :=
  if hasRecordedRows schedule then l.tick - l.initialTick
  else asU64 (.div (asSecs resumedAt) (asSecs base))

/-- How long the silence around `elapsed` lasts, in a recurring gap. -/
def sleepFor (gap : GapWindow) (elapsed : Nat) : Nat :=
  max (timeUntilGapEnd elapsed gap) (timeUntilGapWindowEnd elapsed schedule.gapWindows)

def effectiveInterval (elapsed : Nat) : Nat :=
  match cfg.schedule.burstWindow.bind (isInBurst elapsed ·) with
  | some multiplier => burstInterval cfg.base multiplier
  | none => cfg.base

/-- What an iteration decides about the instant its tick is emitted at. -/
inductive Decision
  | expired
  /-- A one-shot window: on to another tick. -/
  | skip (ticksElapsed : Option Nat)
  /-- A recurring gap: sleep to its end, then on to another tick. -/
  | sleep (gapEnd : Nat) (ticksElapsed : Option Nat)
  /-- Emit, and wait `interval` before the next. -/
  | emit (interval : Nat)

def judge (l : ScheduleLoop) (emitAt : Nat) : Decision :=
  let schedule := cfg.schedule
  let elapsed := emitAt - l.start
  let rowAt := l.nextDeadline - l.start
  if schedule.totalDuration.any (· ≤ elapsed) then .expired
  else
    match schedule.gapWindow.filter (isInGap elapsed ·) with
    | none =>
      if isInGapWindow rowAt schedule.gapWindows then
        .skip (oneShotWalk schedule cfg.base (l.tick - l.initialTick))
      else .emit (effectiveInterval cfg elapsed)
    | some gap =>
      let resumedAt := elapsed + sleepFor schedule gap elapsed
      .sleep (l.start + resumedAt)
        (resumeWalk schedule cfg.base resumedAt (walkStart schedule cfg.base resumedAt l))

/-! ## One iteration -/

/-- What the outside decides in a step. -/
structure LoopInput where
  /-- How far the clock moved up to the step's first reading of it. -/
  delay : Nat := 0
  /-- How far the clock moved from there to the second. -/
  delay' : Nat := 0
  /-- The run was cancelled before the step. -/
  cancel : Bool := false
  /-- A cancel ends the sleep of the step, if it sleeps. -/
  cancelSleep : Bool := false
  /-- What the tick callback and the writes it queued returned. -/
  outcome : Except SondaError Unit := .ok ()

/-- How `head` leaves the iteration. -/
inductive HeadExit
  /-- `break`. -/
  | stopped
  /-- `continue` on another tick. -/
  | moved (l : ScheduleLoop)
  /-- `continue`, a cancel ended the sleep. -/
  | woken
  | called (interval elapsed : Nat)

/-- The instant the tick is emitted at: its deadline while the loop keeps up,
real time once it falls behind. -/
def emitAt (clock : Nat) (l : ScheduleLoop) (inp : LoopInput) : Nat :=
  max l.nextDeadline (clock + inp.delay)

def head (clock : Nat) (isCancelled : Bool) (l : ScheduleLoop)
    (inp : LoopInput) : Option (Nat × HeadExit) :=
  if isCancelled then some (clock, .stopped)
  else
    let now := clock + inp.delay
    let now' := now + inp.delay'
    let emitAt := emitAt clock l inp
    match judge cfg l emitAt with
    | .expired => some (now, .stopped)
    | .skip ticksElapsed => ticksElapsed.map fun n => (now, .moved (l.resume cfg.base n))
    | .sleep gapEnd ticksElapsed =>
      if now' < gapEnd ∧ inp.cancelSleep = true then some (now', .woken)
      else ticksElapsed.map fun n => (max now' gapEnd, .moved (l.resume cfg.base n))
    | .emit interval =>
      -- an interval that is no `Duration` panics
      if durationBound ≤ interval then none
      else if now' < emitAt ∧ inp.cancelSleep = true then some (now', .woken)
      else some (max now' emitAt, .called interval (emitAt - l.start))

/-- What a run of the loop does that is seen outside. -/
inductive LoopEvent
  /-- The tick callback is called for tick `n` at the instant `emitAt`. -/
  | tick (n elapsed emitAt : Nat)
  /-- A rate is published: `tick - windowTick` events in `windowElapsed`. -/
  | rate (tick windowTick windowElapsed : Nat)
  deriving DecidableEq

def oneSecond : Nat := 1000000000

/-- The statistic of a tick that went well. -/
def publishRate (now now' : Nat) (l : ScheduleLoop) : ScheduleLoop × List LoopEvent :=
  let windowElapsed := now - l.rateWindowStart
  if cfg.hasStats = true ∧ oneSecond ≤ windowElapsed then
    ({ l with rateWindowTick := l.tick, rateWindowStart := now' },
      [.rate l.tick l.rateWindowTick windowElapsed])
  else (l, [])

/-- The end of an iteration. -/
def ScheduleLoop.advance (l : ScheduleLoop) (interval : Nat) : ScheduleLoop :=
  { l with nextDeadline := l.nextDeadline + interval, tick := l.tick + 1 }

/-- What the loop does with the outcome of a tick: the variables of the next
iteration, or the error it returns. -/
def settle (clock : Nat) (l : ScheduleLoop) (interval : Nat)
    (inp : LoopInput) : Except SondaError ScheduleLoop × List LoopEvent :=
  match inp.outcome with
  | .ok () =>
    let (l', es) := publishRate cfg (clock + inp.delay) (clock + inp.delay + inp.delay') l
    (.ok (l'.advance interval), es)
  | .error (.sink message) =>
    match cfg.schedule.onSinkError with
    | .warn => (.ok (l.advance interval), [])
    | .fail => (.error (.sink message), [])
  | .error (.encoder (.eventRejected _)) => (.ok (l.advance interval), [])
  | .error other => (.error other, [])

/-! ## The loop on its own -/

inductive LoopPc
  | head
  /-- The tick callback has been called. -/
  | call (interval : Nat)
  /-- The loop returned, with the tick it stored in `last_tick_out`. -/
  | returned (result : Except SondaError Nat)
  deriving DecidableEq

structure LoopState where
  clock : Nat
  cancelled : Bool
  loop : ScheduleLoop
  pc : LoopPc

def LoopState.enter (initialTick now : Nat) : LoopState where
  clock := now
  cancelled := false
  loop := .enter initialTick now
  pc := .head

def LoopState.afterHead (s : LoopState) (cancelled : Bool) (clock : Nat) :
    HeadExit → LoopState × List LoopEvent
  | .stopped => ({ s with clock, cancelled, pc := .returned (.ok s.loop.tick) }, [])
  | .moved loop => ({ s with clock, cancelled, loop }, [])
  | .woken => ({ s with clock, cancelled := true }, [])
  | .called interval elapsed =>
    ({ s with clock, cancelled, pc := .call interval },
      [.tick s.loop.tick elapsed (s.loop.start + elapsed)])

def LoopState.afterSettle (s : LoopState) (clock : Nat) :
    Except SondaError ScheduleLoop → LoopState
  | .ok loop => { s with clock, loop, pc := .head }
  | .error e => { s with clock, pc := .returned (.error e) }

def loopStep (s : LoopState) (inp : LoopInput) : Option (LoopState × List LoopEvent) :=
  match s.pc with
  | .head =>
    let cancelled := s.cancelled || inp.cancel
    (head cfg s.clock cancelled s.loop inp).map fun p => s.afterHead cancelled p.1 p.2
  | .call interval =>
    let p := settle cfg s.clock s.loop interval inp
    some (s.afterSettle (s.clock + inp.delay + inp.delay') p.1, p.2)
  | .returned _ => none

/-- `run_schedule_loop_with_initial_tick`. -/
def scheduleLoop : Framework.Machine LoopState LoopInput LoopEvent where
  step := loopStep cfg

end Sonda.Schedule
