import Sonda.Impl.Schedule.GateBus
import Sonda.Impl.Schedule.ScheduleLoop

/-!
# The gated loop

`gated_loop`, `gated_loop_body`, `run_running_segment` and
`debounce_close_to_paused` of `sonda-core/src/schedule/core_loop.rs`, as a
machine. A step is one pass of the code up to the next place where the loop
waits, polls its receiver or lets the tick callback run: one turn of
`gated_loop_body`, one iteration of the schedule loop of a segment, one poll
of a segment's drain, what follows a segment, one turn of the close debounce,
and the tail of `gated_loop`.

The answer of the poll a step makes is in its `GatedInput`. How long a wait
is meant to last (`remaining_until`, `next_wakeup`, `PAUSED_POLL_INTERVAL`)
only decides how far the clock moves in the step, which the input leaves open.
-/

namespace Sonda.Schedule

inductive ScenarioState
  | pending
  | running
  | paused
  | held
  | unresolved
  | finished
  deriving DecidableEq

/-- What to do while an upstream in another file is not there. -/
inductive UnresolvedBehavior
  | opened
  | closed
  | pending
  deriving DecidableEq

instance : Inhabited UnresolvedBehavior := ⟨.pending⟩

structure DelayClause where
  openDelay : Option Nat
  closeDelay : Option Nat

/-- A `GateContext`, its receiver apart. -/
structure GateContext where
  initial : InitialState := {}
  delay : Option DelayClause := none
  hasAfter : Bool := false
  hasWhile : Bool := false
  hasCloseEmit : Bool := false
  ifUnresolved : Option UnresolvedBehavior := none
  startUnresolved : Bool := false
  holdsOnClose : Bool := false

structure GatedConfig extends LoopConfig where
  ctx : GateContext

/-! ## Debounce timers -/

structure DebounceState where
  openDelay : Nat
  closeDelay : Nat
  pendingOpenAt : Option Nat := none
  pendingCloseAt : Option Nat := none
  deriving DecidableEq

namespace DebounceState

def fromClause (clause : Option DelayClause) : DebounceState where
  openDelay := (clause.bind (·.openDelay)).getD 0
  closeDelay := (clause.bind (·.closeDelay)).getD 0

def observe (d : DebounceState) (edge : GateEdge) (now : Nat) : DebounceState :=
  match edge with
  | .whileOpen => { d with pendingCloseAt := none, pendingOpenAt := some (now + d.openDelay) }
  | .whileClose => { d with pendingOpenAt := none, pendingCloseAt := some (now + d.closeDelay) }
  | .afterFired | .upstreamGone => d

def fireIfDue (d : DebounceState) (now : Nat) : DebounceState × Option GateEdge :=
  if d.pendingOpenAt.any (· ≤ now) then ({ d with pendingOpenAt := none }, some .whileOpen)
  else if d.pendingCloseAt.any (· ≤ now) then ({ d with pendingCloseAt := none }, some .whileClose)
  else (d, none)

def reset (d : DebounceState) : DebounceState :=
  { d with pendingOpenAt := none, pendingCloseAt := none }

end DebounceState

/-! ## States -/

inductive SegmentExit
  | whileClose
  | upstreamGone
  | whileOpen
  | shutdownOrDuration
  deriving DecidableEq

inductive SegmentPc
  | head
  /-- The tick callback has been called, and the receiver is being drained. -/
  | drain (interval : Nat)
  deriving DecidableEq

structure Segment where
  exitOnWhileOpen : Bool
  /-- The code in `observed`, `none` for `SEGMENT_EXIT_NONE`. -/
  observed : Option SegmentExit
  /-- The segment's own token is cancelled. -/
  cancelled : Bool
  loop : ScheduleLoop
  pc : SegmentPc
  deriving DecidableEq

def Segment.enter (exitOnWhileOpen : Bool) (nextTick now : Nat) : Segment where
  exitOnWhileOpen := exitOnWhileOpen
  observed := none
  cancelled := false
  loop := .enter nextTick now
  pc := .head

/-- An edge taken in the drain. -/
def Segment.observe (seg : Segment) : GateEdge → Segment
  | .whileClose => { seg with observed := some .whileClose, cancelled := true }
  | .whileOpen =>
    if seg.exitOnWhileOpen then { seg with observed := some .whileOpen, cancelled := true } else seg
  | .afterFired => seg
  | .upstreamGone => { seg with observed := some .upstreamGone, cancelled := true }

def decodeSegmentExit (observed : Option SegmentExit) : SegmentExit :=
  observed.getD .shutdownOrDuration

inductive LoopExit
  | shutdown
  | durationExpired
  | upstreamFinished
  deriving DecidableEq

inductive GatedPc
  /-- The top of the loop of `gated_loop_body`. -/
  | top
  /-- In `run_running_segment`. -/
  | segment (seg : Segment)
  /-- `run_running_segment` returned. -/
  | segmentExit (exit : SegmentExit)
  /-- In `debounce_close_to_paused`. -/
  | closeWait (deadline : Nat)
  /-- `gated_loop_body` returned. -/
  | exited (exit : LoopExit)
  /-- `gated_loop` returned. -/
  | returned (result : Except SondaError Unit)
  deriving DecidableEq

structure GatedState where
  clock : Nat
  cancelled : Bool
  startedAt : Nat
  state : ScenarioState
  afterSatisfied : Bool
  whileOpen : Bool
  debounce : DebounceState
  nextTick : Nat
  pc : GatedPc
  deriving DecidableEq

def GatedState.enter (ctx : GateContext) (now : Nat) : GatedState where
  clock := now
  cancelled := false
  startedAt := now
  state := if ctx.startUnresolved then .unresolved else .pending
  afterSatisfied := if ctx.hasAfter then ctx.initial.afterAlreadyFired else true
  whileOpen := if ctx.hasWhile then ctx.initial.whileGateOpen.getD false else true
  debounce := .fromClause ctx.delay
  nextTick := 0
  pc := .top

/-! ## Events and inputs -/

/-- Where the loop polls its receiver. -/
inductive Place
  | pending
  | running
  | unresolvedOpen
  | closeWait
  | paused
  | held
  | unresolved
  deriving DecidableEq

inductive GatedEvent
  | loop (e : LoopEvent)
  /-- An edge is taken from the receiver. -/
  | took (place : Place) (edge : GateEdge)
  /-- `write_state`. -/
  | wrote (state : ScenarioState)
  | closeEmitted
  /-- `gated_loop_body` returns. -/
  | exited (exit : LoopExit)
  /-- `gated_loop_body` returns an error. -/
  | failed (e : SondaError)
  deriving DecidableEq

structure GatedInput extends LoopInput where
  /-- What the poll of the step returns, if it polls. -/
  edge : Option GateEdge := none
  /-- The scenario's `stats` hold a value. -/
  hasEmitted : Bool := false
  /-- What the close emitter, its writes and its flush come to. -/
  closeEmit : Except SondaError Unit := .ok ()
  /-- What the final flush returns. -/
  flush : Except SondaError Unit := .ok ()

/-! ## Steps -/

abbrev StepResult := GatedState × List GatedEvent

def durationExpired (schedule : ParsedSchedule) (startedAt now : Nat) : Bool :=
  schedule.totalDuration.any (· ≤ now - startedAt)

def closeTargetState (cfg : GatedConfig) (inp : GatedInput) : ScenarioState :=
  if cfg.ctx.holdsOnClose && (cfg.hasStats && inp.hasEmitted) then .held else .paused

namespace GatedState

/-- The step begins: a cancel that came meanwhile, and its first reading of
the clock. -/
def arrive (s : GatedState) (inp : GatedInput) : GatedState :=
  { s with clock := s.clock + inp.delay, cancelled := s.cancelled || inp.cancel }

def exit (s : GatedState) (r : LoopExit) : StepResult := ({ s with pc := .exited r }, [.exited r])

def fail (s : GatedState) (e : SondaError) : StepResult :=
  ({ s with pc := .returned (.error e) }, [.failed e])

/-- A cancel ends the wait of the step. -/
def exitCancelled (s : GatedState) : StepResult := { s with cancelled := true }.exit .shutdown

/-- On to another state, at the top of the loop. -/
def moveTo (s : GatedState) (state : ScenarioState) : StepResult :=
  ({ s with state, pc := .top }, [.wrote state])

/-- The upstream is gone, and the scenario stays. -/
def toUnresolved (s : GatedState) : StepResult :=
  { s with whileOpen := false, debounce := s.debounce.reset }.moveTo .unresolved

/-- The gate is closed. -/
def toClosed (cfg : GatedConfig) (inp : GatedInput) (s : GatedState) : StepResult :=
  { s with whileOpen := false, debounce := s.debounce.reset }.moveTo (closeTargetState cfg inp)

/-- `invoke_close_emit(..)?` and then `k`. -/
def closeEmit (cfg : GatedConfig) (inp : GatedInput) (s : GatedState) (k : GatedState → StepResult) :
    StepResult :=
  if cfg.ctx.hasCloseEmit then
    match inp.closeEmit with
    | .ok () => ((k s).1, .closeEmitted :: (k s).2)
    | .error e => ((s.fail e).1, .closeEmitted :: (s.fail e).2)
  else k s

/-- `UpstreamGone` taken while nothing is emitted. -/
def gone (cfg : GatedConfig) (s : GatedState) : StepResult :=
  if cfg.ctx.ifUnresolved = none then s.exit .upstreamFinished else s.toUnresolved

end GatedState

/-- A result with the taking of an edge before it. -/
def taking (place : Place) (edge : GateEdge) (r : StepResult) : StepResult :=
  (r.1, .took place edge :: r.2)

variable (cfg : GatedConfig) (s : GatedState) (inp : GatedInput)

def pendingStep : StepResult :=
  if s.afterSatisfied = false then
    if inp.cancelSleep then s.exitCancelled
    else
      match inp.edge with
      | some .afterFired => taking .pending .afterFired ({ s with afterSatisfied := true }, [])
      | some .whileOpen => taking .pending .whileOpen ({ s with whileOpen := true }, [])
      | some .whileClose => taking .pending .whileClose ({ s with whileOpen := false }, [])
      | some .upstreamGone => taking .pending .upstreamGone (s.gone cfg)
      | none => (s, [])
  else if !cfg.ctx.hasWhile || s.whileOpen then s.moveTo .running
  else s.moveTo (closeTargetState cfg inp)

/-- The end of a turn of `Paused` or `Held`. -/
def fireDue (s : GatedState) : StepResult :=
  let (debounce, due) := s.debounce.fireIfDue s.clock
  if due = some .whileOpen ∧ s.whileOpen = true then { s with debounce }.moveTo .running
  else ({ s with debounce }, [])

def pausedStep (cfg : GatedConfig) (place : Place) (s : GatedState) (inp : GatedInput) : StepResult :=
  if inp.cancelSleep then s.exitCancelled
  else
    let s := { s with clock := s.clock + inp.delay' }
    match inp.edge with
    | some .whileOpen => taking place .whileOpen
        (fireDue { s with whileOpen := true, debounce := s.debounce.observe .whileOpen s.clock })
    | some .whileClose => taking place .whileClose
        (fireDue { s with whileOpen := false, debounce := s.debounce.observe .whileClose s.clock })
    | some .afterFired => taking place .afterFired (fireDue { s with afterSatisfied := true })
    | some .upstreamGone => taking place .upstreamGone (s.gone cfg)
    | none => fireDue s

def unresolvedStep : StepResult :=
  if inp.cancelSleep then s.exitCancelled
  else
    match inp.edge with
    | some .whileOpen => taking .unresolved .whileOpen
        ({ s with whileOpen := true, debounce := s.debounce.reset }.moveTo .pending)
    | some .whileClose => taking .unresolved .whileClose (s.toClosed cfg inp)
    | some .afterFired => taking .unresolved .afterFired ({ s with afterSatisfied := true }, [])
    | some .upstreamGone => taking .unresolved .upstreamGone (s, [])
    | none => (s, [])

def enterSegment (s : GatedState) (exitOnWhileOpen : Bool) (inp : GatedInput) : StepResult :=
  let now := s.clock + inp.delay'
  ({ s with clock := now, pc := .segment (.enter exitOnWhileOpen s.nextTick now) }, [])

/-- One turn of the loop of `gated_loop_body`. -/
def topStep : StepResult :=
  let s := s.arrive inp
  if s.cancelled then s.exit .shutdown
  else if durationExpired cfg.schedule s.startedAt s.clock then s.exit .durationExpired
  else
    match s.state with
    | .pending => pendingStep cfg s inp
    | .running => enterSegment s false inp
    | .paused => pausedStep cfg .paused s inp
    | .held => pausedStep cfg .held s inp
    | .unresolved =>
      match cfg.ctx.ifUnresolved.getD default with
      | .opened => enterSegment s true inp
      | .closed | .pending => unresolvedStep cfg s inp
    | .finished => s.exit .shutdown

/-- Where a segment of the state drains its receiver. -/
def drainPlace : ScenarioState → Place
  | .unresolved => .unresolvedOpen
  | _ => .running

def segmentHead (s : GatedState) (seg : Segment) (cancelled : Bool) (clock : Nat) :
    HeadExit → StepResult
  | .stopped =>
    ({ s with clock, cancelled, nextTick := seg.loop.tick,
              pc := .segmentExit (decodeSegmentExit seg.observed) }, [])
  | .moved loop => ({ s with clock, cancelled, pc := .segment { seg with loop } }, [])
  | .woken => ({ s with clock, cancelled := true, pc := .segment seg }, [])
  | .called interval elapsed =>
    ({ s with clock, cancelled, pc := .segment { seg with pc := .drain interval } },
      [.loop (.tick seg.loop.tick elapsed (seg.loop.start + elapsed))])

def segmentSettle (s : GatedState) (seg : Segment) (clock : Nat) (es : List LoopEvent) :
    Except SondaError ScheduleLoop → StepResult
  | .ok loop => ({ s with clock, pc := .segment { seg with loop, pc := .head } }, es.map .loop)
  | .error e => ({ s with clock, pc := .returned (.error e) }, es.map .loop ++ [.failed e])

/-- One step of `run_running_segment`. -/
def segmentStep (cfg : GatedConfig) (s : GatedState) (seg : Segment) (inp : GatedInput) :
    Option StepResult :=
  match seg.pc with
  | .head =>
    let cancelled := s.cancelled || inp.cancel
    (head cfg.toLoopConfig s.clock (cancelled || seg.cancelled) seg.loop inp.toLoopInput).map fun p =>
      segmentHead s seg cancelled p.1 p.2
  | .drain interval =>
    match inp.edge with
    | some edge =>
      some (taking (drainPlace s.state) edge ({ s with pc := .segment (seg.observe edge) }, []))
    | none =>
      let p := settle cfg.toLoopConfig s.clock seg.loop interval inp.toLoopInput
      some (segmentSettle s seg (s.clock + inp.delay + inp.delay') p.2 p.1)

def afterRunning : SegmentExit → StepResult
  | .upstreamGone =>
    if cfg.ctx.ifUnresolved = none then s.exit .upstreamFinished
    else s.closeEmit cfg inp GatedState.toUnresolved
  | .whileClose =>
    if s.debounce.closeDelay = 0 then s.closeEmit cfg inp (·.toClosed cfg inp)
    else ({ s with clock := s.clock + inp.delay',
                   pc := .closeWait (s.clock + inp.delay' + s.debounce.closeDelay) }, [])
  | .whileOpen | .shutdownOrDuration => s.toClosed cfg inp

/-- What follows a segment of `Unresolved` under `if_unresolved: open`. -/
def afterUnresolved : SegmentExit → StepResult
  | .whileClose => s.closeEmit cfg inp (·.toClosed cfg inp)
  | .upstreamGone | .shutdownOrDuration => ({ s with pc := .top }, [])
  | .whileOpen => { s with whileOpen := true, debounce := s.debounce.reset }.moveTo .running

def segmentExitStep (cfg : GatedConfig) (s : GatedState) (exit : SegmentExit) (inp : GatedInput) :
    StepResult :=
  let s := s.arrive inp
  if s.cancelled then s.exit .shutdown
  else if durationExpired cfg.schedule s.startedAt s.clock then s.exit .durationExpired
  else
    match s.state with
    | .unresolved => afterUnresolved cfg s inp exit
    | _ => afterRunning cfg s inp exit

/-- One turn of `debounce_close_to_paused`, and what follows its return. -/
def closeWaitStep (cfg : GatedConfig) (s : GatedState) (deadline : Nat) (inp : GatedInput) :
    StepResult :=
  let s := s.arrive inp
  let commit (s : GatedState) : StepResult := s.closeEmit cfg inp (·.toClosed cfg inp)
  if s.cancelled || durationExpired cfg.schedule s.startedAt s.clock then commit s
  else if deadline ≤ s.clock + inp.delay' then commit { s with clock := s.clock + inp.delay' }
  else if inp.cancelSleep then commit { s with cancelled := true }
  else
    match inp.edge with
    | some .whileOpen => taking .closeWait .whileOpen ({ s with whileOpen := true, pc := .top }, [])
    | some .whileClose => taking .closeWait .whileClose (s, [])
    | some .afterFired => taking .closeWait .afterFired (s, [])
    | some .upstreamGone => taking .closeWait .upstreamGone (commit s)
    | none => (s, [])

def applyFlushPolicy (policy : OnSinkError) : Except SondaError Unit → Except SondaError Unit
  | .ok () => .ok ()
  | .error (.sink message) =>
    match policy with
    | .warn => .ok ()
    | .fail => .error (.sink message)
  | .error other => .error other

/-- The tail of `gated_loop`: the close emitter, `finish` and the flush. -/
def tailStep : StepResult :=
  s.closeEmit cfg inp fun s =>
    ({ s with state := .finished,
              pc := .returned (applyFlushPolicy cfg.schedule.onSinkError inp.flush) },
      [.wrote .finished])

def gatedStep : Option StepResult :=
  match s.pc with
  | .top => some (topStep cfg s inp)
  | .segment seg => segmentStep cfg s seg inp
  | .segmentExit exit => some (segmentExitStep cfg s exit inp)
  | .closeWait deadline => some (closeWaitStep cfg s deadline inp)
  | .exited _ => some (tailStep cfg s inp)
  | .returned _ => none

def gatedLoop (cfg : GatedConfig) : Framework.Machine GatedState GatedInput GatedEvent where
  step := gatedStep cfg

end Sonda.Schedule
