import Sonda.Proof.Encoder.OneLine
import Sonda.Proof.Sink.RemoteWrite

/-!
# The messages of remote write on the wire

`wireProst` writes the messages field by field, every list with its length. `literalSnappy` writes
a short text as one literal. With them a run of the sink shows the body of two events. An event
with a `__name__` label has a series whose names are not increasing.
-/

namespace Sonda.Sink

open List

open Framework (Codec mapM_some ok_of_toOption Machine)
open Config (Text isValidLabelKey)
open Sonda.Encoder (ascii MetricEvent isValidMetricName)

/-! ## Messages -/

def textCodec : Codec Text := Codec.byte.list

def labelCodec : Codec Label :=
  (textCodec.pair textCodec).map (fun p => ⟨p.1, p.2⟩) (fun l => (l.name, l.value)) fun _ => rfl

def sampleCodec : Codec (Sample (BitVec 64)) :=
  (Codec.word.pair Codec.word).map (fun p => ⟨p.1, p.2⟩) (fun s => (s.value, s.timestamp)) fun _ => rfl

def seriesCodec : Codec (TimeSeries (BitVec 64)) :=
  (labelCodec.list.pair sampleCodec.list).map (fun p => ⟨p.1, p.2⟩) (fun s => (s.labels, s.samples))
    fun _ => rfl

def requestCodec : Codec (WriteRequest (BitVec 64)) :=
  seriesCodec.list.map (fun l => ⟨l⟩) WriteRequest.timeseries fun _ => rfl

/-- The messages, every list with its length. -/
def wireProst : Prost (BitVec 64) where
  encodeSeries := seriesCodec.write
  decodeSeries := seriesCodec.readAll
  encodeRequest := requestCodec.write
  decodeRequest := requestCodec.readAll
  decode_encodeSeries := seriesCodec.readAll_write
  decode_encodeRequest := requestCodec.readAll_write

/-! ## Compression -/

/-- The length, and the text as one literal. -/
def literal (data : Text) : Text :=
  UInt8.ofNat data.length :: if data.isEmpty then [] else 240 :: UInt8.ofNat (data.length - 1) :: data

/-- Short texts, which have nothing to copy from. -/
def literalSnappy : Snappy where
  maxInput := 127
  compress data := if data.length ≤ 127 then .ok (literal data) else .error "snappy: input buffer is too big"
  decompress body := some (body.drop 3)
  compress_ok data h := ⟨literal data, if_pos h⟩
  decompress_compress data body h := by
    split at h
    · rw [← Except.ok.inj h]
      cases data <;> rfl
    · cases h

/-! ## A run and a repeated name -/

theorem isValidMetricName_upName : isValidMetricName (ascii "up") = true := by decide

/-- An event with a label `__name__`, which is a label key like any other. -/
def namedEvent : MetricEvent Unit :=
  ⟨⟨ascii "up", isValidMetricName_upName⟩, (),
    ⟨[(nameLabel, ascii "x")], List.pairwise_singleton _ _, by decide⟩, 0⟩

def namedSeries : TimeSeries Unit :=
  ⟨[⟨nameLabel, ascii "up"⟩, ⟨nameLabel, ascii "x"⟩], [⟨(), 0⟩]⟩

theorem timeSeries_namedEvent : timeSeries namedEvent = .ok namedSeries := by
  have hlabels : seriesLabels namedEvent = namedSeries.labels := by decide
  rfl

/-- The series of an event with a label `__name__` has this name twice, with two values. -/
theorem timeSeries_repeats : ∃ series, timeSeries namedEvent = .ok series ∧
    series.labels.map Label.name = [nameLabel, nameLabel] ∧ ¬ WellLabelled namedEvent series := by
  refine ⟨namedSeries, timeSeries_namedEvent, rfl, fun h => ?_⟩
  have hvalue := h.name ⟨nameLabel, ascii "x"⟩ (mem_cons_of_mem _ mem_cons_self) rfl
  exact absurd hvalue (by decide)

/-- The event `up` with the value `1.0` and the label `Job`, which sorts before `__name__`. -/
def upEvent (job : UInt8) : MetricEvent (BitVec 64) :=
  ⟨⟨ascii "up", isValidMetricName_upName⟩, 0x3ff0000000000000#64,
    ⟨[(ascii "Job", [job])], List.pairwise_singleton _ _, by simp; decide⟩, 0⟩

/-- The post of the only request fails. -/
def refused : Outside := ⟨0, 0, .error (.sink "HTTP 503 from 'http://localhost'")⟩

theorem mapM_isSeries {F : Type} {events : List (MetricEvent F)} {series : List (TimeSeries F)} :
    events.mapM (fun event => (timeSeries event).toOption) = some series ↔
      List.Forall₂ IsSeries events series :=
  mapM_some.trans ⟨Forall₂.imp fun _ _ => ok_of_toOption, Forall₂.imp fun _ _ e => congrArg _ e⟩

instance (sink : RemoteWriteSink (BitVec 64)) (call : Call (BitVec 64)) :
    Decidable (CallFits wireProst literalSnappy sink call) :=
  match call with
  | .write events outside =>
    decidable_of_iff (∀ series ∈ events.mapM fun event => (timeSeries event).toOption,
      (∀ s ∈ series, (wireProst.encodeSeries s).length < 2 ^ 32) ∧
        (shouldFlush outside { sink with batch := sink.batch ++ series } = true →
          sink.batch ++ series ≠ [] →
            (wireProst.encodeRequest ⟨sink.batch ++ series⟩).length ≤ literalSnappy.maxInput))
      (forall_congr' fun _ => imp_congr_left mapM_isSeries)
  | .flush _ => inferInstanceAs (Decidable (_ → _ ≤ _))

/-- Two writes of one labelled event each: the second fills the batch, and the refused request has
both. -/
theorem remoteWrite_carries_up :
    (∃ sink log, (remoteWrite wireProst literalSnappy).Run (CallFits wireProst literalSnappy)
        (.new _ 2 0 0) sink log ∧ ((writtenEvents log).length = 2 ∧ (bodies log).length = 1 ∧
        sink.batch = []) ∧ Carried wireProst literalSnappy sink log) ∧
      ∀ series, timeSeries (upEvent 97) = .ok series → WellLabelled (upEvent 97) series := by
  have hall := remoteWrite_carries wireProst literalSnappy 2 0 0
  refine ⟨Machine.run_reaches_and [.write [upEvent 97] refused, .write [upEvent 98] refused]
    (by decide +kernel) fun _ _ hrun _ => hall.1 _ _ hrun, fun series hseries => ?_⟩
  exact (hall.2 _ series hseries).2 (by unfold NoNameLabel; decide)

end Sonda.Sink
