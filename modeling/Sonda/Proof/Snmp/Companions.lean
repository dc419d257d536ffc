import Sonda.Proof.Snmp.SeriesCache

/-!
# The records of a run of calls

`encodeMetric_records` is about a call after any calls on the same encoder. A
call that fails leaves the buffer and the pending companions as they were. A
record reads back as its instance and its companions, and the companions of a
series are in the first record written of it and in no other. Where the label
columns read the same labels of all events of a series, the record is the one
of the event rendered afresh.

`stale_companion`: without that condition it need not be. The encoder takes the
companions from the first event it has seen of the series, also if that event
was refused for its value.
-/

namespace Sonda.Snmp.SnmpEncoder

open Framework
open Sonda.Schedule (SondaError EncoderError)

variable {F : Type} {std : StdText} {f64 : StdFloat F} {hasher : Text × Labels → UInt64}
  {encoder : SnmpEncoder} {template : Template} {event : MetricEvent F} {buf : Octets}
  {carried : Bool} {first : MetricEvent F} {rendered : Rendered} {e : SondaError}

/-- What a call gives for an event that is rendered without the cache; `owed`
says whether the companions of its series are still to be written. -/
def encodeAfresh (std : StdText) (f64 : StdFloat F) (encoder : SnmpEncoder) (event : MetricEvent F)
    (buf : Octets) (owed : Bool) : Octets × Except SondaError Unit :=
  match encoder.templateOf std event.name with
  | .error e => (buf, .error e)
  | .ok template =>
    match encoder.renderOid std f64 template event with
    | .error reason => (buf, .error (.encoder (.eventRejected reason)))
    | .ok shared =>
      writeRecord std f64 template shared.rendered (shared.companionsPending && owed) event buf

/-! ## One call -/

/-- A written record is that of the instance and a value. -/
theorem writeRecord_ok (h : (writeRecord std f64 template rendered carried event buf).2 = .ok ()) :
    ∃ value : Value, (∀ out, template.ty.write f64 event.value out = .ok (value.write out)) ∧
      (writeRecord std f64 template rendered carried event buf).1 =
        buf ++ Snmp.encodeMetric rendered carried value [] := by
  unfold writeRecord at h ⊢
  rcases write_cases f64 template.ty event.value with ⟨value, hvalue⟩ | ⟨e, herror⟩
  · have hbody : ∀ out, writeValue f64 template rendered event.value out =
        (out ++ (rendered.oid ++ tlv value.tag value.octets), .ok ()) := by
      intro out
      rw [writeValue, hvalue, Value.write, writeOctets_eq, List.append_assoc]
    have hwritten : ∀ out : Octets, value.write (out ++ rendered.oid) =
        out ++ (rendered.oid ++ tlv value.tag value.octets) := by
      intro out
      rw [Value.write, writeOctets_eq, List.append_assoc]
    refine ⟨value, hvalue, ?_⟩
    unfold Snmp.encodeMetric
    dsimp only
    rw [writeTlvWith_eq (hbody _), writeTlv_eq (hwritten _)]
    cases carried <;> simp
  · have hbody : ∀ out, writeValue f64 template rendered event.value out = (out ++ rendered.oid, .error e) := by
      intro out
      rw [writeValue, herror]
    dsimp only at h
    rw [writeTlvWith_eq (hbody _)] at h
    cases h

theorem writeRecord_error
    (h : (writeRecord std f64 template rendered carried event buf).2 = .error e) :
    (writeRecord std f64 template rendered carried event buf).1 = buf := by
  unfold writeRecord at h ⊢
  dsimp only at h ⊢
  split at h
  · rfl
  · cases h

theorem writeEntry_error {entry : CachedOid}
    (h : (writeEntry std f64 template entry event buf).2 = .error e) :
    (writeEntry std f64 template entry event buf).1 = buf := by
  unfold writeEntry at h ⊢
  split at h
  · rfl
  · exact writeRecord_error h

/-! ## Calls after others -/

/-- The call for an entry of the event itself is the one rendered afresh. -/
theorem writeEntry_entryAs (ht : encoder.templates.lookup event.name = some template) (served : Bool) :
    writeEntry std f64 template (entryAs std f64 encoder template event served) event buf =
      encodeAfresh std f64 encoder event buf (!served) := by
  unfold encodeAfresh templateOf writeEntry entryAs
  rw [ht]
  dsimp only
  cases encoder.renderOid std f64 template event <;> rfl

/-- The entry of a series is the same for the first event and for another one
of which the label columns read the same. -/
theorem entryAs_congr (ht : encoder.templates.lookup event.name = some template)
    (hseries : encoder.seriesOf first = encoder.seriesOf event)
    (hcolumns : SameColumns encoder first event) (served : Bool) :
    writeEntry std f64 template (entryAs std f64 encoder template first served) event buf =
      writeEntry std f64 template (entryAs std f64 encoder template event served) event buf := by
  rw [seriesOf_eq ht, seriesOf] at hseries
  cases hfirst : encoder.templates.lookup first.name with
  | none =>
    rw [hfirst] at hseries
    cases hseries
  | some template' =>
    rw [hfirst, Option.map_some] at hseries
    obtain ⟨hname, hseen⟩ := Prod.mk.inj (Option.some.inj hseries)
    obtain rfl : template' = template := by
      rw [hname] at hfirst
      exact Option.some.inj (hfirst.symm.trans ht)
    have hrender := @renderOid_congr F std f64 encoder template' first event hfirst hname hseen hcolumns
    unfold writeEntry entryAs
    rw [hrender]

theorem firstOf_mem {log : List (Call F)} {key : SeriesKey}
    (h : encoder.firstOf log key = some first) :
    ∃ call ∈ log, call.event = first ∧ encoder.seriesOf first = some key := by
  obtain ⟨call, hfind, rfl⟩ := Option.map_eq_some_iff.mp h
  have hof := List.find?_some hfind
  exact ⟨call, List.mem_of_find?_eq_some hfind, rfl, of_decide_eq_true hof⟩

/-- The `VarBind`s of a companion record. -/
def companionsOf (columns : List ColumnInstance) : List Companion :=
  columns.map fun column => ⟨column.indexArcs.toNat, instanceVarbind column.oid column.value⟩

/-- A call that keeps the buffer and what each series owes; a series that was not
seen yet owes all its companions. -/
def Refused (std : StdText) (f64 : StdFloat F) (hasher : Text × Labels → UInt64) (encoder : SnmpEncoder)
    (cache : OidCache) (event : MetricEvent F) (buf : Octets)
    (r : (Octets × Except SondaError Unit) × OidCache) : Prop :=
  r.1.1 = buf ∧ ∀ key, encoder.entryOf hasher r.2 key = encoder.entryOf hasher cache key ∨
    encoder.entryOf hasher cache key = none ∧ encoder.seriesOf event = some key ∧
      ∃ template, encoder.entryOf hasher r.2 key = some (newEntry std f64 encoder template event)

/-- A call that appends a record of the series' first event, with the companions
if it is the first record of the series. -/
def Appended (std : StdText) (f64 : StdFloat F) (encoder : SnmpEncoder) (log : List (Call F))
    (event : MetricEvent F) (buf out : Octets) : Prop :=
  ∃ key template series value appended,
    encoder.seriesOf event = some key ∧ encoder.templates.lookup event.name = some template ∧
    (encoder.renderOid std f64 template ((encoder.firstOf log key).getD event)).map Shared.rendered =
      .ok (Snmp.renderOid series) ∧
    (∀ out, template.ty.write f64 event.value out = .ok (value.write out)) ∧
    out = buf ++ appended ∧
    (series.Short value → ∃ record, splitRecord appended = .ok record ∧
      record.indexArcs = series.indexArcs.toNat ∧ record.varbind = instanceVarbind series.oid value ∧
      record.companions.list record.companions.left =
        companionsOf (if encoder.served log key then [] else series.columns))

section tracked

variable {cache : OidCache} {log : List (Call F)} (htracks : Tracks std f64 hasher encoder cache log)

include htracks

theorem encodeMetric_error {e : SondaError}
    (h : (encoder.encodeMetric std f64 hasher cache event buf).1.2 = .error e) :
    Refused std f64 hasher encoder cache event buf (encoder.encodeMetric std f64 hasher cache event buf) := by
  cases ht : encoder.templates.lookup event.name with
  | none =>
    obtain ⟨e, he⟩ := @encodeMetric_of_none F std f64 hasher encoder event ht cache buf
    rw [he]
    exact ⟨rfl, fun key => .inl rfl⟩
  | some template =>
    obtain ⟨hwritten, entry', -, herror, hentries⟩ := encodeMetric_of_tracks htracks ht buf
    obtain rfl := herror e h
    unfold Refused
    rw [hwritten] at h ⊢
    refine ⟨writeEntry_error h, fun key => ?_⟩
    rw [hentries]
    by_cases hkey : key = keyOf template event
    · rw [if_pos hkey, htracks key template (by rw [hkey]; exact ht), hkey]
      cases hfirst : encoder.firstOf log (keyOf template event) with
      | none =>
        refine .inr ⟨rfl, seriesOf_eq ht, template, ?_⟩
        rw [served_of_firstOf hfirst, Option.getD_none, entryAs_false]
      | some first => exact .inl rfl
    · rw [if_neg hkey]
      exact .inl rfl

theorem encodeMetric_ok (h : (encoder.encodeMetric std f64 hasher cache event buf).1.2 = .ok ()) :
    Appended std f64 encoder log event buf (encoder.encodeMetric std f64 hasher cache event buf).1.1 := by
  cases ht : encoder.templates.lookup event.name with
  | none =>
    obtain ⟨e, he⟩ := @encodeMetric_of_none F std f64 hasher encoder event ht cache buf
    rw [he] at h
    cases h
  | some template =>
    obtain ⟨hwritten, -⟩ := encodeMetric_of_tracks htracks ht buf
    rw [hwritten] at h ⊢
    unfold writeEntry entryAs at h ⊢
    generalize hserved : encoder.served log (keyOf template event) = served at h ⊢
    cases hrender : encoder.renderOid std f64 template
        ((encoder.firstOf log (keyOf template event)).getD event) with
    | error reason =>
      rw [hrender] at h
      cases h
    | ok shared =>
      rw [hrender] at h
      obtain ⟨series, hlen, rfl⟩ := renderOid_ok hrender
      obtain ⟨value, hvalue, hout⟩ := writeRecord_ok h
      refine ⟨_, template, series, value, _, seriesOf_eq ht, ht, ?_, hvalue, hout, fun hshort => ?_⟩
      · rw [hrender]
        rfl
      · obtain ⟨record, hsplit, hindex, hvarbind, hcompanions⟩ :=
          splitRecord_record hlen (decide (series.columns ≠ []) && !served) hshort
        refine ⟨record, hsplit, hindex, hvarbind, hcompanions.trans ?_⟩
        rw [hserved]
        unfold companionsOf
        cases served with
        | true => simp
        | false =>
          by_cases hnil : series.columns = []
          · simp [hnil]
          · simp [hnil]

/-- Where the label columns read the same of the events of a series, a call is
the one rendered afresh. -/
theorem encodeMetric_afresh (hsame : ∀ call ∈ log, encoder.seriesOf call.event = encoder.seriesOf event →
      SameColumns encoder call.event event) :
    (encoder.encodeMetric std f64 hasher cache event buf).1 = encodeAfresh std f64 encoder event buf
      (!(encoder.seriesOf event).any (encoder.served log)) := by
  cases ht : encoder.templates.lookup event.name with
  | none =>
    unfold encodeMetric encodeAfresh templateOf
    rw [ht]
  | some template =>
    obtain ⟨hwritten, -⟩ := encodeMetric_of_tracks htracks ht buf
    refine hwritten.trans ?_
    rw [seriesOf_eq ht, Option.any_some, ← writeEntry_entryAs ht]
    cases hfirst : encoder.firstOf log (keyOf template event) with
    | none => rfl
    | some first =>
      obtain ⟨call, hcall, rfl, hseries⟩ := firstOf_mem hfirst
      rw [← seriesOf_eq ht] at hseries
      exact entryAs_congr ht hseries (hsame call hcall hseries) _

end tracked

/-- A call after any others. -/
theorem encodeMetric_records {cache : OidCache} {log : List (Call F)}
    (hrun : (calls std f64 hasher encoder).Run (fun _ _ => True) ∅ cache log) (event : MetricEvent F)
    (buf : Octets) :
    let r := encoder.encodeMetric std f64 hasher cache event buf
    (∀ e, r.1.2 = .error e → Refused std f64 hasher encoder cache event buf r) ∧
    (r.1.2 = .ok () → Appended std f64 encoder log event buf r.1.1) ∧
    ((∀ call ∈ log, encoder.seriesOf call.event = encoder.seriesOf event →
        SameColumns encoder call.event event) →
      r.1 = encodeAfresh std f64 encoder event buf
        (!(encoder.seriesOf event).any (encoder.served log))) := by
  have htracks := tracks_of_run hrun
  exact ⟨fun _ h => encodeMetric_error htracks h, encodeMetric_ok htracks, encodeMetric_afresh htracks⟩

/-! ## A label column of the agent label -/

/-- Floats that are whole numbers or not finite. -/
def wholeFloats : StdFloat (Option Int) where
  isFinite value := value.isSome
  round value := value.getD 0
  isWhole _ := true
  single value := some (beOctets 4 (value.getD 0).toNat)
  toBeBytes value := beOctets 8 (value.getD 0).toNat
  display _ := []
  displayRounded _ := []
  parse _ := none
  length_single := by
    intro value octets h
    cases h
    exact length_beOctets 4 _
  length_toBeBytes _ := length_beOctets 8 _

def plainText : StdText := ⟨fun _ => none, fun _ => ""⟩

/-- The scalar `1.3.6.0`. -/
def metricOid : OidTemplate := ⟨⟨[1, 3, 6], by decide⟩, [], by decide⟩

/-- The scalar `1.3.7.0`. -/
def deviceOid : OidTemplate := ⟨⟨[1, 3, 7], by decide⟩, [], by decide⟩

/-- One metric, and a label column of the agent label. -/
def deviceConfig : SnmpEncoderConfig where
  agentLabel := [0x64]
  oids := AList.singleton [0x6d] metricOid
  labelColumns := AList.singleton [0x64] ⟨deviceOid, none⟩
  types := ∅
  dropLabels := []

def deviceEncoder : SnmpEncoder where
  cfg := deviceConfig
  templates := resolvedTemplates deviceConfig
  columns := [⟨[0x64], deviceOid, none⟩]
  unseen_eq _ _ := lookup_resolvedTemplates
  columns_le := by decide

/-- An event of that metric from a device. -/
def deviceEvent (device : UInt8) (value : Option Int) : MetricEvent (Option Int) :=
  ⟨[0x6d], value, [([0x64], [device])]⟩

/-- The cache after an event from the device `a` that is refused for its value. -/
def refusedCache : OidCache :=
  (deviceEncoder.encodeMetric plainText wholeFloats (fun _ => 0) ∅ (deviceEvent 0x61 none) []).2

def refusedLog : List (Call (Option Int)) :=
  let r := deviceEncoder.encodeMetric plainText wholeFloats (fun _ => 0) ∅ (deviceEvent 0x61 none) []
  [⟨deviceEvent 0x61 none, [], r.1.1, r.1.2⟩]

theorem run_refused : (calls plainText wholeFloats (fun _ => 0) deviceEncoder).Run (fun _ _ => True) ∅
    refusedCache refusedLog :=
  .step (i := (deviceEvent 0x61 none, [])) .start trivial rfl

/-- The first record written of the series is that of an event from the device
`b`, and its companion serves the name `a`. -/
theorem stale_companion :
    (calls plainText wholeFloats (fun _ => 0) deviceEncoder).Run (fun _ _ => True) ∅ refusedCache refusedLog ∧
      (deviceEncoder.encodeMetric plainText wholeFloats (fun _ => 0) refusedCache
        (deviceEvent 0x62 (some 5)) []).1.2.isOk = true ∧
      (deviceEncoder.encodeMetric plainText wholeFloats (fun _ => 0) refusedCache
        (deviceEvent 0x62 (some 5)) []).1.1 ≠
        (encodeAfresh plainText wholeFloats deviceEncoder (deviceEvent 0x62 (some 5)) [] true).1 := by
  exact ⟨run_refused, by decide, by decide⟩

/-- After an event from a device was refused, the next one from it has its
companion. -/
theorem encodeMetric_records_refused :
    (deviceEncoder.encodeMetric plainText wholeFloats (fun _ => 0) refusedCache
      (deviceEvent 0x61 (some 5)) []).1 =
      encodeAfresh plainText wholeFloats deviceEncoder (deviceEvent 0x61 (some 5)) []
        (!(deviceEncoder.seriesOf (deviceEvent 0x61 (some 5))).any (deviceEncoder.served refusedLog)) := by
  refine (encodeMetric_records run_refused (deviceEvent 0x61 (some 5)) []).2.2 ?_
  intro call hcall _
  obtain rfl := List.mem_singleton.mp hcall
  exact fun column _ => ⟨rfl, fun _ _ => rfl⟩

end Sonda.Snmp.SnmpEncoder
