import Sonda.Impl.Schedule.GatedLoop

/-!
# A gated metrics run with a close emitter

What the metrics runner adds to the gated loop: the tick callback of
`sonda-core/src/schedule/runner.rs` with its close emitter, `drain_writes` and
`invoke_close_emit` of `core_loop.rs`, and the part of `ScenarioStats` that
remembers the series of the events recorded since the last close
(`stats.rs`).

The encoder is a function of the event, as the `Encoder` trait has it. What
the sink answers to each write and flush, the labels and the value of a tick,
and the order in which the set of series is iterated are in the input.
-/

namespace Sonda.Schedule

/-! ## Events -/

/-- Nanoseconds since the Unix epoch. -/
abbrev SystemTime := Int

/-- The last `SystemTime`: seconds are an `i64`. -/
def lastSystemTime : SystemTime := 9223372036854775807999999999

def checkedAdd (t : SystemTime) (d : Nat) : Option SystemTime :=
  if t + d ≤ lastSystemTime then some (t + d) else none

def oneMillisecond : Nat := 1000000

abbrev Labels := List (String × String)

structure MetricEvent where
  name : String
  value : Value
  labels : Labels
  timestamp : SystemTime
  deriving DecidableEq

/-- A series: `(name, labels)`. -/
abbrev CloseEmitKey := String × Labels

def MetricEvent.key (event : MetricEvent) : CloseEmitKey := (event.name, event.labels)

/-! ## Statistics -/

/-- The part of `ScenarioStats` the close emitter reads. -/
structure ScenarioStats where
  /-- A set: no series is in it twice. -/
  closeEmitSeries : List CloseEmitKey := []
  lastEmitTs : Option SystemTime := none
  trackCloseSeries : Bool := false

namespace ScenarioStats

def pushMetric (st : ScenarioStats) (event : MetricEvent) : ScenarioStats :=
  if st.trackCloseSeries then
    { st with closeEmitSeries := st.closeEmitSeries.insert event.key
              lastEmitTs := some event.timestamp }
  else st

def enableCloseSeriesTracking (st : ScenarioStats) : ScenarioStats :=
  { st with trackCloseSeries := true }

def drainCloseEmitSeries (st : ScenarioStats) :
    (List CloseEmitKey × Option SystemTime) × ScenarioStats :=
  ((st.closeEmitSeries, st.lastEmitTs), { st with closeEmitSeries := [], lastEmitTs := none })

end ScenarioStats

/-! ## Writes -/

abbrev Bytes := List UInt8

/-- A queued write: `Metric` if `wantsEvents`, else `Bytes`, which takes only
the bytes of the event to the sink. -/
structure WriteCommand where
  event : MetricEvent
  bytes : Bytes
  wantsEvents : Bool

structure TickOutput where
  writes : List WriteCommand := []
  rejected : List String := []

namespace TickOutput

def reject (out : TickOutput) (reason : String) : TickOutput :=
  { out with rejected := out.rejected ++ [reason] }

def pushMetric (out : TickOutput) (wantsEvents : Bool) (event : MetricEvent) (bytes : Bytes) :
    TickOutput :=
  { out with writes := out.writes ++ [⟨event, bytes, wantsEvents⟩] }

end TickOutput

/-- What the sink answers to one call after the other; after the last answer
all is well. -/
abbrev Answers := List (Except SondaError Unit)

/-- `drain_writes`: the commands that reached the sink, and the result. It
stops at the first error. -/
def drainWrites : List WriteCommand → Answers → List WriteCommand × Except SondaError Unit
  | [], _ => ([], .ok ())
  | cmd :: cmds, answers =>
    match answers.headD (.ok ()) with
    | .ok () => (cmd :: (drainWrites cmds answers.tail).1, (drainWrites cmds answers.tail).2)
    | .error e => ([cmd], .error e)

/-! ## The close emitter -/

inductive CloseSignal
  | staleMarker
  | snapTo (value : Value)

def CloseSignal.value : CloseSignal → Value
  | .staleMarker => 0x7ff0000000000002#64
  | .snapTo value => value

structure CloseEmitter where
  encode : MetricEvent → Except SondaError Bytes
  signal : CloseSignal
  wantsEvents : Bool

def closeTs (watermark : Option SystemTime) (now : SystemTime) : SystemTime :=
  match watermark with
  | some maxRecent => (checkedAdd maxRecent oneMillisecond).getD maxRecent
  | none => now

namespace CloseEmitter

def marker (em : CloseEmitter) (ts : SystemTime) (key : CloseEmitKey) : MetricEvent :=
  ⟨key.1, em.signal.value, key.2, ts⟩

/-- The loop over the series. A rejected marker is skipped. -/
def emitMarkers (em : CloseEmitter) (ts : SystemTime) :
    List CloseEmitKey → TickOutput → Except SondaError Unit × TickOutput
  | [], out => (.ok (), out)
  | key :: series, out =>
    match em.encode (em.marker ts key) with
    | .ok bytes =>
      emitMarkers em ts series (out.pushMetric em.wantsEvents (em.marker ts key) bytes)
    | .error (.encoder (.eventRejected reason)) => emitMarkers em ts series (out.reject reason)
    | .error other => (.error other, out)

end CloseEmitter

def applyCloseEmitPolicy (policy : OnSinkError) : SondaError → Except SondaError Unit
  | .encoder (.eventRejected _) => .ok ()
  | .sink message =>
    match policy with
    | .warn => .ok ()
    | .fail => .error (.sink message)
  | other => .error other

/-- What is outside the run's control at a close. -/
structure CloseInput where
  /-- The order the set of series is iterated in. -/
  order : List CloseEmitKey := []
  /-- What the sink answers to the writes. -/
  answers : Answers := []
  /-- What the sink answers to the flush. -/
  flushed : Except SondaError Unit := .ok ()
  systemNow : SystemTime := 0
  deriving DecidableEq

/-- The series in an order: `order` if it is one. -/
def iterate (series order : List CloseEmitKey) : List CloseEmitKey :=
  if order.isPerm series then order else series

/-- A close, as the sink sees it. -/
structure Closing where
  input : CloseInput
  /-- The markers that were handed to the sink, in order. -/
  handed : List MetricEvent
  deriving DecidableEq

/-- `invoke_close_emit`: the statistics after it, what the sink saw and the
result. The policy lets every rejected marker pass, so that the markers the
encoder rejected leave no trace in these. -/
def invokeCloseEmit (em : CloseEmitter) (policy : OnSinkError) (st : ScenarioStats)
    (inp : CloseInput) : ScenarioStats × Closing × Except SondaError Unit :=
  let drained := st.drainCloseEmitSeries
  let ts := closeTs drained.1.2 inp.systemNow
  let emitted := em.emitMarkers ts (iterate drained.1.1 inp.order) {}
  match emitted.1 with
  | .error e => (drained.2, ⟨inp, []⟩, applyCloseEmitPolicy policy e)
  | .ok () =>
    let sent := drainWrites emitted.2.writes inp.answers
    (drained.2, ⟨inp, sent.1.map (·.event)⟩,
      match sent.2, inp.flushed with
      | .error e, _ => applyCloseEmitPolicy policy e
      | .ok (), .error e => applyCloseEmitPolicy policy e
      | .ok (), .ok () => .ok ())

/-! ## The run -/

structure MetricsConfig where
  schedule : ParsedSchedule
  rate : Rate
  entered : (baseInterval rate).isSome = true := by decide +kernel
  ctx : GateContext
  name : String
  emitter : CloseEmitter
  /-- The `base` of the run's `WallClock`. -/
  wallBase : SystemTime

/-- The gated loop of the run: it has statistics and a close emitter. -/
def MetricsConfig.gated (cfg : MetricsConfig) : GatedConfig where
  schedule := cfg.schedule
  rate := cfg.rate
  entered := cfg.entered
  hasStats := true
  ctx := { cfg.ctx with hasCloseEmit := true }

structure MetricsState where
  gated : GatedState
  stats : ScenarioStats
  /-- The `wall_clock` of the tick called last. -/
  wallClock : SystemTime

def MetricsState.enter (cfg : MetricsConfig) (now : Nat) : MetricsState where
  gated := .enter cfg.gated.ctx now
  stats := ScenarioStats.enableCloseSeriesTracking {}
  wallClock := cfg.wallBase

structure MetricsInput extends GatedInput where
  value : Value := 0
  labels : Labels := []
  close : CloseInput := {}

inductive MetricsEvent
  | gated (e : GatedEvent)
  /-- `push_metric` of an event that was written. -/
  | recorded (event : MetricEvent)
  | closed (closing : Closing)
  deriving DecidableEq

/-- The instant of the tick called in a step. -/
def tickAt (es : List GatedEvent) : Option Nat :=
  es.findSome? fun e => match e with
    | .loop (.tick _ _ emitAt) => some emitAt
    | _ => none

/-- The step takes up the outcome of a tick. -/
def settles (pc : GatedPc) (edge : Option GateEdge) : Bool :=
  match pc, edge with
  | .segment { pc := .drain _, .. }, none => true
  | _, _ => false

variable (cfg : MetricsConfig) (s : MetricsState) (inp : MetricsInput)

def tickEvent : MetricEvent :=
  ⟨cfg.name, inp.value, inp.labels, s.wallClock⟩

/-- What the tick callback and the write it queued return. -/
def tickOutcome : Except SondaError Unit :=
  match cfg.emitter.encode (tickEvent cfg s inp) with
  | .ok bytes =>
    (drainWrites [⟨tickEvent cfg s inp, bytes, cfg.emitter.wantsEvents⟩] inp.close.answers).2
  | .error e => .error e

/-- What the close emitter comes to, if it runs. -/
def closing : ScenarioStats × Closing × Except SondaError Unit :=
  invokeCloseEmit cfg.emitter cfg.schedule.onSinkError s.stats inp.close

/-- The statistics after a step of the gated loop that emitted `es`, and what
was done to them. -/
def account (es : List GatedEvent) : ScenarioStats × List MetricsEvent :=
  if .closeEmitted ∈ es then ((closing cfg s inp).1, [.closed (closing cfg s inp).2.1])
  else if settles s.gated.pc inp.edge && (tickOutcome cfg s inp).isOk then
    (s.stats.pushMetric (tickEvent cfg s inp), [.recorded (tickEvent cfg s inp)])
  else (s.stats, [])

/-- `none` where the step is not enabled, or `wall_at` is past the last
`SystemTime`, which panics. -/
def metricsStep : Option (MetricsState × List MetricsEvent) :=
  (gatedStep cfg.gated s.gated
    { inp.toGatedInput with outcome := tickOutcome cfg s inp
                            closeEmit := (closing cfg s inp).2.2 }).bind fun r =>
    let wallClock :=
      match tickAt r.2 with
      | some emitAt => checkedAdd cfg.wallBase (emitAt - s.gated.startedAt)
      | none => some s.wallClock
    wallClock.map fun wallClock =>
      let a := account cfg s inp r.2
      ({ gated := r.1, stats := a.1, wallClock }, r.2.map .gated ++ a.2)

/-- `run_with_sink_gated`. -/
def metricsLoop (cfg : MetricsConfig) : Framework.Machine MetricsState MetricsInput MetricsEvent where
  step := metricsStep cfg

end Sonda.Schedule
