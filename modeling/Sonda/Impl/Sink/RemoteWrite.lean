import Mathlib.Data.List.Sort
import Sonda.Framework.Wire
import Sonda.Impl.Encoder.LineEncoders

/-!
# Remote write

`sonda-core/src/encoder/remote_write.rs` and `sonda-core/src/sink/remote_write.rs`: an event
becomes a `TimeSeries` with its length in front, and the sink gathers them into requests.
`prost` and `snap` are parameters. The readings of the clock and the answers to the posts are
inputs of the calls.
-/

namespace Sonda.Sink

open Framework (leBytes ofLeBytes Machine)
open Config (Text)
open Sonda.Encoder (ascii Failure MetricEvent sinceEpoch)
open Sonda.Schedule (SondaError EncoderError)

/-! ## Messages -/

structure Label where
  name : Text
  value : Text
  deriving DecidableEq

structure Sample (F : Type) where
  value : F
  timestamp : BitVec 64

structure TimeSeries (F : Type) where
  labels : List Label
  samples : List (Sample F)

structure WriteRequest (F : Type) where
  timeseries : List (TimeSeries F)

/-- The messages as bytes. -/
structure Prost (F : Type) where
  encodeSeries : TimeSeries F → Text
  decodeSeries : Text → Except String (TimeSeries F)
  encodeRequest : WriteRequest F → Text
  decodeRequest : Text → Except String (WriteRequest F)
  decode_encodeSeries : ∀ series, decodeSeries (encodeSeries series) = .ok series
  decode_encodeRequest : ∀ request, decodeRequest (encodeRequest request) = .ok request

/-- Compression, which refuses what is longer than its limit. -/
structure Snappy where
  maxInput : Nat
  compress : Text → Except String Text
  decompress : Text → Option Text
  compress_ok : ∀ data, data.length ≤ maxInput → ∃ body, compress data = .ok body
  decompress_compress : ∀ data body, compress data = .ok body → decompress body = some data

/-! ## Encoder -/

def nameLabel : Text := ascii "__name__"

/-- The name and the labels of the event, sorted by their names. -/
def seriesLabels {F : Type} (event : MetricEvent F) : List Label :=
  (⟨nameLabel, event.name.name⟩ :: event.labels.entries.map fun entry => ⟨entry.1, entry.2⟩).insertionSort
    fun a b => a.name ≤ b.name

/-- `as i64`, as the bits. -/
def asI64 (n : Nat) : BitVec 64 := BitVec.ofNat 64 n

def timeSeries {F : Type} (event : MetricEvent F) : Except Failure (TimeSeries F) := do
  let timestamp ← sinceEpoch event.timestamp
  .ok ⟨seriesLabels event, [⟨event.value, asI64 (timestamp / 1000000)⟩]⟩

/-- `u32::to_le_bytes` of a length cast to `u32`. -/
def lengthBytes (n : Nat) : Text := leBytes 4 (n % 2 ^ 32)

section

variable {F : Type} (prost : Prost F)

def record (series : TimeSeries F) : Text :=
  lengthBytes (prost.encodeSeries series).length ++ prost.encodeSeries series

def encodeMetric (event : MetricEvent F) (buf : Text) : Except Failure Text := do
  let series ← timeSeries event
  .ok (buf ++ record prost series)

/-! ## Records -/

def otherError (message : String) : SondaError := .encoder (.other message)

/-- Records up to the end of the data; every record takes at least four bytes. -/
def parseRecords : Nat → Text → Except SondaError (List (TimeSeries F))
  | 0, _ => .ok []
  | fuel + 1, data =>
    if data.isEmpty then .ok []
    else if data.length < 4 then .error (otherError "truncated length prefix in TimeSeries buffer")
    else
      let len := ofLeBytes (data.take 4)
      let rest := data.drop 4
      if rest.length < len then
        .error (otherError s!"truncated TimeSeries protobuf: expected {len} bytes, got {rest.length}")
      else
        match prost.decodeSeries (rest.take len) with
        | .error e => .error (otherError s!"protobuf decode error: {e}")
        | .ok series => do
          let more ← parseRecords fuel (rest.drop len)
          .ok (series :: more)

def parseLengthPrefixedTimeseries (data : Text) : Except SondaError (List (TimeSeries F)) :=
  parseRecords prost (data.length + 1) data

end

/-! ## Sink -/

/-- Instants and durations in nanoseconds. -/
structure RemoteWriteSink (F : Type) where
  batch : List (TimeSeries F)
  batchSize : Nat
  maxBufferAge : Nat
  lastFlushAt : Nat
  lastWriteDelivered : Bool

def RemoteWriteSink.new (F : Type) (batchSize maxBufferAge now : Nat) : RemoteWriteSink F :=
  ⟨[], batchSize, maxBufferAge, now, false⟩

/-- What the outside does in one call: what the clock reads when the age is checked and when the
batch is taken, and how `do_send` ends. -/
structure Outside where
  checkedAt : Nat
  takenAt : Nat
  answer : Except SondaError Unit

/-- A call leaves a sink and the bodies that it built, and returns. -/
abbrev Outcome (F : Type) := RemoteWriteSink F × List Text × Except SondaError Unit

section

variable {F : Type} (prost : Prost F) (snappy : Snappy) (outside : Outside) (sink : RemoteWriteSink F)

def sendViaBlocking : Outcome F :=
  if sink.batch.isEmpty then (sink, [], .ok ())
  else
    -- The batch is taken before the request is compressed.
    let taken := { sink with lastFlushAt := outside.takenAt, batch := [] }
    match snappy.compress (prost.encodeRequest ⟨sink.batch⟩) with
    | .error e => (taken, [], .error (otherError s!"snappy compression error: {e}"))
    | .ok body => (taken, [body], outside.answer)

def shouldFlush : Bool :=
  sink.batchSize ≤ sink.batch.length ||
    (sink.maxBufferAge != 0 && sink.maxBufferAge ≤ outside.checkedAt - sink.lastFlushAt)

def write (outside : Outside) (data : Text) (sink : RemoteWriteSink F) : Outcome F :=
  match parseLengthPrefixedTimeseries prost data with
  | .error e => (sink, [], .error e)
  | .ok list =>
    let extended := { sink with batch := sink.batch ++ list }
    if shouldFlush outside extended then
      match sendViaBlocking prost snappy outside extended with
      | (sent, bodies, .error e) => (sent, bodies, .error e)
      | (sent, bodies, .ok _) => ({ sent with lastWriteDelivered := true }, bodies, .ok ())
    else ({ extended with lastWriteDelivered := false }, [], .ok ())

def flush : Outcome F := sendViaBlocking prost snappy outside sink

/-! ## Runs -/

/-- A call of the sink; what is written are whole records. -/
inductive Call (F : Type)
  | write (events : List (MetricEvent F)) (outside : Outside)
  | flush (outside : Outside)

/-- What a call shows: the events that it wrote and the bodies that it built. -/
inductive Shown (F : Type)
  | written (event : MetricEvent F)
  | body (bytes : Text)

/-- The encoder on the events, one after the other into one buffer. -/
def encodeEvents (events : List (MetricEvent F)) : Except Failure Text :=
  events.foldlM (fun buf event => encodeMetric prost event buf) []

/-- A write of events is enabled when all of them are encoded. -/
def remoteWrite : Machine (RemoteWriteSink F) (Call F) (Shown F) where
  step sink
    | .write events outside =>
      (encodeEvents prost events).toOption.map fun data =>
        let after := write prost snappy outside data sink
        (after.1, events.map .written ++ after.2.1.map .body)
    | .flush outside =>
      let after := flush prost snappy outside sink
      some (after.1, after.2.1.map .body)

end

end Sonda.Sink
