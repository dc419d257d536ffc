import Sonda.Framework.Fallible
import Sonda.Impl.Sink.RemoteWrite

/-!
# What the requests of remote write carry

A record is read back whole (`parseRecords_records`), so every call keeps the
events that were written: they are in the bodies, in this order, or in the batch (`Carried`). The
label names of a series increase unless the event has a `__name__` label of its own
(`wellLabelled_iff`). `remoteWrite_carries` is about every run whose requests are not too long to
be compressed.
-/

namespace Sonda.Sink

open List

open Framework (ofLeBytes length_leBytes ofLeBytes_leBytes Machine bind_ok ok_of_toOption)
open Config (Text)
open Sonda.Encoder (ascii Failure MetricEvent)
open Sonda.Schedule (SondaError)

variable {F : Type} {prost : Prost F} {snappy : Snappy}
variable (log : List (Shown F)) (events : List (MetricEvent F)) (built : List Text)
  (event : MetricEvent F) {series : List (TimeSeries F)} {sink : RemoteWriteSink F} {data : Text}

/-! ## Records -/

theorem length_lengthBytes (n : Nat) : (lengthBytes n).length = 4 := length_leBytes 4 _

theorem ofLeBytes_lengthBytes {n : Nat} (h : n < 2 ^ 32) : ofLeBytes (lengthBytes n) = n := by
  rw [lengthBytes, Nat.mod_eq_of_lt h, ofLeBytes_leBytes (show n < 256 ^ 4 from h)]

/-- The bytes of the series, each with its length. -/
def records (prost : Prost F) (series : List (TimeSeries F)) : Text := series.flatMap (record prost)

theorem length_le_records (series : List (TimeSeries F)) : series.length ≤ (records prost series).length := by
  induction series with
  | nil => simp
  | cons s series ih =>
    rw [records, flatMap_cons, length_append, record, length_append, length_lengthBytes]
    rw [records] at ih
    simp only [length_cons]
    omega

/-- A record is shorter than a length can say. -/
def Short (prost : Prost F) (series : TimeSeries F) : Prop := (prost.encodeSeries series).length < 2 ^ 32

theorem parseRecords_records (hshort : ∀ s ∈ series, Short prost s) {fuel : Nat}
    (hfuel : series.length < fuel) : parseRecords prost fuel (records prost series) = .ok series := by
  induction series generalizing fuel with
  | nil =>
    obtain ⟨fuel, rfl⟩ := Nat.exists_eq_add_one_of_ne_zero (Nat.ne_of_gt hfuel)
    rfl
  | cons s series ih =>
    obtain ⟨hs, hseries⟩ := forall_mem_cons.1 hshort
    obtain ⟨fuel, rfl⟩ := Nat.exists_eq_add_one_of_ne_zero (Nat.ne_of_gt (Nat.zero_lt_of_lt hfuel))
    have hlen := length_lengthBytes (prost.encodeSeries s).length
    have hdata : records prost (s :: series) =
        lengthBytes (prost.encodeSeries s).length ++ (prost.encodeSeries s ++ records prost series) := by
      rw [records, flatMap_cons, record, append_assoc, records]
    have htake : (records prost (s :: series)).take 4 = lengthBytes (prost.encodeSeries s).length := by
      rw [hdata, ← hlen, take_left]
    have hdrop : (records prost (s :: series)).drop 4 = prost.encodeSeries s ++ records prost series := by
      rw [hdata, ← hlen, drop_left]
    have hfour : ¬ (records prost (s :: series)).length < 4 := by
      rw [hdata, length_append, hlen]
      omega
    have hsome : ¬ (records prost (s :: series)).isEmpty = true := by
      intro h
      rw [isEmpty_iff.1 h] at hfour
      exact hfour (by decide)
    have hwhole : ¬ (prost.encodeSeries s ++ records prost series).length < (prost.encodeSeries s).length := by
      rw [length_append]
      omega
    have hrest := ih hseries (Nat.lt_of_succ_lt_succ hfuel)
    rw [parseRecords, if_neg hsome, if_neg hfour]
    simp only [htake, hdrop, ofLeBytes_lengthBytes hs, if_neg hwhole, take_left, drop_left,
      prost.decode_encodeSeries, hrest]
    rfl

/-- The series of an event. -/
def IsSeries (event : MetricEvent F) (series : TimeSeries F) : Prop := timeSeries event = .ok series

theorem foldlM_encodeMetric {events : List (MetricEvent F)} {buf : Text}
    (h : events.foldlM (fun buf event => encodeMetric prost event buf) buf = .ok data) :
    ∃ series, List.Forall₂ IsSeries events series ∧ data = buf ++ records prost series := by
  induction events generalizing buf with
  | nil =>
    cases h
    exact ⟨[], .nil, (append_nil _).symm⟩
  | cons event events ih =>
    obtain ⟨next, hnext, h⟩ := bind_ok h
    obtain ⟨s, hs, hnext⟩ := bind_ok hnext
    obtain ⟨series, hseries, rfl⟩ := ih h
    refine ⟨s :: series, .cons hs hseries, ?_⟩
    rw [← Except.ok.inj hnext, append_assoc]
    rfl

/-! ## Labels -/

/-- The label names increase, and `__name__` is the name of the event. -/
structure WellLabelled (event : MetricEvent F) (series : TimeSeries F) : Prop where
  increasing : series.labels.Pairwise fun a b => a.name < b.name
  named : ∃ label ∈ series.labels, label.name = nameLabel
  name : ∀ label ∈ series.labels, label.name = nameLabel → label.value = event.name.name

/-- No label of the event is called `__name__`. -/
def NoNameLabel (event : MetricEvent F) : Prop := ∀ entry ∈ event.labels.entries, entry.1 ≠ nameLabel

/-- The labels of a series before they are sorted. -/
def unsorted (event : MetricEvent F) : List Label :=
  ⟨nameLabel, event.name.name⟩ :: event.labels.entries.map fun entry => ⟨entry.1, entry.2⟩

theorem seriesLabels_perm : (seriesLabels event).Perm (unsorted event) :=
  perm_insertionSort _ _

instance : Std.Total fun a b : Label => a.name ≤ b.name := ⟨fun a b => List.le_total a.name b.name⟩

instance : IsTrans Label fun a b => a.name ≤ b.name := ⟨fun _ _ _ hab hbc => List.le_trans hab hbc⟩

theorem seriesLabels_sorted : (seriesLabels event).Pairwise fun a b => a.name ≤ b.name :=
  pairwise_insertionSort _ _

theorem names_unsorted :
    (unsorted event).map Label.name = nameLabel :: event.labels.entries.map Prod.fst := by
  rw [unsorted, map_cons, map_map]
  rfl

/-- The names differ exactly when none of the event's own is `__name__`. -/
theorem nodup_names_iff : ((seriesLabels event).map Label.name).Nodup ↔ NoNameLabel event := by
  have hkeys : (event.labels.entries.map Prod.fst).Nodup := by
    rw [List.Nodup, pairwise_map]
    refine event.labels.ordered.imp fun h heq => ?_
    rw [heq] at h
    exact List.lt_irrefl _ h
  rw [((seriesLabels_perm event).map Label.name).nodup_iff, names_unsorted, nodup_cons]
  simp only [hkeys, and_true, mem_map, not_exists, not_and]
  rfl

theorem increasing_iff :
    ((seriesLabels event).Pairwise fun a b => a.name < b.name) ↔ NoNameLabel event := by
  rw [← nodup_names_iff, List.Nodup, pairwise_map]
  refine ⟨fun h => h.imp fun hlt heq => ?_, fun h => ?_⟩
  · rw [heq] at hlt
    exact List.lt_irrefl _ hlt
  · refine ((seriesLabels_sorted event).and h).imp fun hab => ?_
    exact (List.le_iff_lt_or_eq.1 hab.1).resolve_right hab.2

theorem wellLabelled_iff {event : MetricEvent F} {series : TimeSeries F} (h : IsSeries event series) :
    WellLabelled event series ↔ NoNameLabel event := by
  obtain ⟨timestamp, -, h⟩ := bind_ok h
  rw [← Except.ok.inj h]
  refine ⟨fun hwell => (increasing_iff event).1 hwell.increasing, fun hno => ?_⟩
  refine ⟨(increasing_iff event).2 hno, ⟨⟨nameLabel, event.name.name⟩, ?_, rfl⟩, fun label hlabel hname => ?_⟩
  · exact (seriesLabels_perm event).mem_iff.2 mem_cons_self
  · rcases mem_cons.1 ((seriesLabels_perm event).mem_iff.1 hlabel) with rfl | hlabel
    · rfl
    · obtain ⟨entry, hentry, rfl⟩ := mem_map.1 hlabel
      exact absurd hname (hno entry hentry)

/-! ## Calls -/

/-- The body is the compressed encoding of the request. -/
def Carries (prost : Prost F) (snappy : Snappy) (body : Text) (request : WriteRequest F) : Prop :=
  ∃ data, snappy.decompress body = some data ∧ prost.decodeRequest data = .ok request

/-- The request of a batch is not too long to be compressed. -/
def Fits (prost : Prost F) (snappy : Snappy) (batch : List (TimeSeries F)) : Prop :=
  (prost.encodeRequest ⟨batch⟩).length ≤ snappy.maxInput

/-- What a call did with a batch: it stays, or it is the one request of the one body. -/
def Sends (prost : Prost F) (snappy : Snappy) (batch : List (TimeSeries F)) (after : Outcome F) : Prop :=
  (after.1.batch = batch ∧ after.2.1 = []) ∨
    batch ≠ [] ∧ after.1.batch = [] ∧ ∃ body, after.2.1 = [body] ∧ Carries prost snappy body ⟨batch⟩

theorem sendViaBlocking_sends (outside : Outside) (sink : RemoteWriteSink F)
    (hfits : sink.batch ≠ [] → Fits prost snappy sink.batch) :
    Sends prost snappy sink.batch (sendViaBlocking prost snappy outside sink) := by
  unfold sendViaBlocking
  split
  · exact .inl ⟨rfl, rfl⟩
  · rename_i hsome
    have hne : sink.batch ≠ [] := fun h => hsome (isEmpty_iff.2 h)
    obtain ⟨body, hbody⟩ := snappy.compress_ok _ (hfits hne)
    simp only [hbody]
    exact .inr ⟨hne, rfl, body, rfl, _, snappy.decompress_compress _ _ hbody, prost.decode_encodeRequest _⟩

theorem write_sends {outside : Outside} (hshort : ∀ s ∈ series, Short prost s)
    (hfits : shouldFlush outside { sink with batch := sink.batch ++ series } = true →
      sink.batch ++ series ≠ [] → Fits prost snappy (sink.batch ++ series)) :
    Sends prost snappy (sink.batch ++ series) (write prost snappy outside (records prost series) sink) := by
  unfold write
  rw [parseLengthPrefixedTimeseries, parseRecords_records hshort (Nat.lt_succ_of_le (length_le_records series))]
  dsimp only
  split
  · rename_i hflush
    have hsends := sendViaBlocking_sends outside { sink with batch := sink.batch ++ series }
      (hfits hflush)
    -- The answer to the post changes no batch and no body.
    split
    · rename_i hsent
      rw [hsent] at hsends
      exact hsends
    · rename_i hsent
      rw [hsent] at hsends
      exact hsends
  · exact .inl ⟨rfl, rfl⟩

/-- The series that a call adds are short, and the request that it builds fits. -/
def CallFits (prost : Prost F) (snappy : Snappy) (sink : RemoteWriteSink F) : Call F → Prop
  | .write events outside => ∀ series, List.Forall₂ IsSeries events series →
    (∀ s ∈ series, Short prost s) ∧
      (shouldFlush outside { sink with batch := sink.batch ++ series } = true →
        sink.batch ++ series ≠ [] → Fits prost snappy (sink.batch ++ series))
  | .flush _ => sink.batch ≠ [] → Fits prost snappy sink.batch

/-! ## Runs -/

def Shown.event? : Shown F → Option (MetricEvent F)
  | .written event => some event
  | .body _ => none

def Shown.body? : Shown F → Option Text
  | .written _ => none
  | .body bytes => some bytes

def writtenEvents (log : List (Shown F)) : List (MetricEvent F) := log.filterMap Shown.event?

def bodies (log : List (Shown F)) : List Text := log.filterMap Shown.body?

theorem writtenEvents_append :
    writtenEvents (log ++ (events.map .written ++ built.map .body)) = writtenEvents log ++ events := by
  simp [writtenEvents, filterMap_append, filterMap_map, Function.comp_def, Shown.event?]

theorem bodies_append :
    bodies (log ++ (events.map .written ++ built.map .body)) = bodies log ++ built := by
  simp [bodies, filterMap_append, filterMap_map, Function.comp_def, Shown.body?]

/-- The series of the requests. -/
def inRequests (requests : List (WriteRequest F)) : List (TimeSeries F) := requests.flatMap WriteRequest.timeseries

/-- The events that were written are in the requests of the bodies and then in the batch, each
once and in the order of the writes. No request is empty. -/
def Carried (prost : Prost F) (snappy : Snappy) (sink : RemoteWriteSink F) (log : List (Shown F)) : Prop :=
  ∃ requests, List.Forall₂ (Carries prost snappy) (bodies log) requests ∧
    (∀ request ∈ requests, request.timeseries ≠ []) ∧
    List.Forall₂ IsSeries (writtenEvents log) (inRequests requests ++ sink.batch)

/-- A call that adds series to the batch and sends it or not keeps what is carried. -/
theorem carried_sends {log : List (Shown F)} (h : Carried prost snappy sink log)
    {events : List (MetricEvent F)} (hseries : List.Forall₂ IsSeries events series)
    {after : Outcome F} (hsends : Sends prost snappy (sink.batch ++ series) after) :
    Carried prost snappy after.1 (log ++ (events.map .written ++ after.2.1.map .body)) := by
  obtain ⟨requests, hbodies, hsome, hevents⟩ := h
  have hall : List.Forall₂ IsSeries (writtenEvents log ++ events)
      (inRequests requests ++ (sink.batch ++ series)) := by
    rw [← append_assoc]
    exact rel_append hevents hseries
  rw [Carried, writtenEvents_append, bodies_append]
  rcases hsends with ⟨hbatch, hnone⟩ | ⟨hne, hbatch, body, hbody, hcarries⟩
  · rw [hbatch, hnone, append_nil]
    exact ⟨requests, hbodies, hsome, hall⟩
  · rw [hbatch, hbody]
    refine ⟨requests ++ [⟨sink.batch ++ series⟩], rel_append hbodies (.cons hcarries .nil), ?_, ?_⟩
    · intro request hrequest
      rcases mem_append.1 hrequest with hrequest | hrequest
      · exact hsome request hrequest
      · rw [mem_singleton.1 hrequest]
        exact hne
    · rw [append_nil, inRequests, flatMap_append, flatMap_singleton]
      exact hall

theorem step_carried {after : RemoteWriteSink F} {log shown : List (Shown F)} {call : Call F}
    (h : Carried prost snappy sink log) (hfits : CallFits prost snappy sink call)
    (hstep : (remoteWrite prost snappy).step sink call = some (after, shown)) :
    Carried prost snappy after (log ++ shown) := by
  cases call with
  | write events outside =>
    obtain ⟨data, hdata, hafter⟩ := Option.map_eq_some_iff.1 hstep
    obtain ⟨series, hseries, rfl⟩ := foldlM_encodeMetric (ok_of_toOption hdata)
    obtain ⟨hshort, hflush⟩ := hfits series hseries
    obtain ⟨rfl, rfl⟩ := Prod.mk.inj hafter
    exact carried_sends h hseries (write_sends hshort hflush)
  | flush outside =>
    cases hstep
    have hsends := sendViaBlocking_sends outside sink hfits
    rw [← append_nil sink.batch] at hsends
    exact carried_sends h .nil hsends

/-- In every run whose requests can be compressed, whatever the posts answer, the events that
were written are in the bodies and then in the batch, each once and in order. A series is labelled
as the receiver asks exactly when its event has no `__name__` label of its own. -/
theorem remoteWrite_carries (prost : Prost F) (snappy : Snappy) (batchSize maxBufferAge now : Nat) :
    (∀ sink log, (remoteWrite prost snappy).Run (CallFits prost snappy)
        (.new F batchSize maxBufferAge now) sink log → Carried prost snappy sink log) ∧
    ∀ (event : MetricEvent F) (series : TimeSeries F), timeSeries event = .ok series →
      (WellLabelled event series ↔ NoNameLabel event) := by
  refine ⟨fun sink log hrun => ?_, fun event series h => wellLabelled_iff h⟩
  exact hrun.invariant ⟨[], .nil, by simp, .nil⟩ step_carried

end Sonda.Sink
