import Sonda.Proof.Snmp.Rendering

/-!
# The cache of series and the companions it owes

A series is a metric's name and the labels its template can see. After any
calls the cache holds, for each series seen, what its first event renders to,
with the companions pending until a record of the series was written
(`Tracks`); so a call writes the record of the first event, with the companions
if no record of the series was written before (`encodeMetric_of_tracks`).

Two events of one series render the same unless a label column reads a label
that the metric's template cannot see (`renderOid_congr`).
-/

namespace Sonda.Snmp.SnmpEncoder

open Framework List
open Sonda.Schedule (SondaError EncoderError)

variable {F : Type} (std : StdText) (f64 : StdFloat F) (hasher : Text × Labels → UInt64)
  (encoder : SnmpEncoder)

/-! ## Series and entries -/

abbrev SeriesKey := Text × Labels

/-- The series of an event of the template's metric. -/
abbrev keyOf (template : Template) (event : MetricEvent F) : SeriesKey :=
  (event.name, template.seen event.labels)

/-- The series of an event. -/
def seriesOf (event : MetricEvent F) : Option SeriesKey :=
  (encoder.templates.lookup event.name).map fun template => keyOf template event

/-- The series of a cached entry. -/
def entryKey (entry : CachedOid) : SeriesKey :=
  (entry.name, match encoder.templates.lookup entry.name with
    | some template => template.seen entry.labels
    | none => entry.labels)

/-- The entry of a series. -/
def entryOf (cache : OidCache) (key : SeriesKey) : Option CachedOid :=
  Buckets.entry hasher encoder.entryKey cache key

/-- The record of an instance, or the buffer as it was if the value is
refused. -/
def writeRecord (template : Template) (rendered : Rendered) (carried : Bool) (event : MetricEvent F)
    (buf : Octets) : Octets × Except SondaError Unit :=
  let header := [rendered.indexArcs, if carried then rendered.companionCount else 0]
  let r := writeTlvWith (buf ++ header) .sequence (writeValue f64 template rendered event.value)
  match r.2 with
  | .error e =>
    (buf, .error (.encoder (.eventRejected ("metric " ++ std.quote event.name ++ ": " ++ e.text f64))))
  | .ok () => (if carried then r.1 ++ rendered.companions else r.1, .ok ())

/-- What a call gives for an entry of the cache. -/
def writeEntry (template : Template) (entry : CachedOid) (event : MetricEvent F) (buf : Octets) :
    Octets × Except SondaError Unit :=
  match entry.oid with
  | .error reason => (buf, .error (.encoder (.eventRejected reason)))
  | .ok shared => writeRecord std f64 template shared.rendered shared.companionsPending event buf

/-- The entry of an event that is the first of its series. -/
def newEntry (template : Template) (event : MetricEvent F) : CachedOid :=
  ⟨event.name, event.labels, encoder.renderOid std f64 template event⟩

/-- A call writes the record of `entry`, and leaves the entries of `cache`, but for
the flag of the series if the record is written. -/
def Serves (template : Template) (entry : CachedOid) (event : MetricEvent F) (cache : OidCache)
    (buf : Octets) (r : (Octets × Except SondaError Unit) × OidCache) : Prop :=
  r.1 = writeEntry std f64 template entry event buf ∧
    ∃ entry', (r.1.2 = .ok () → entry' = entry.setPending false) ∧
      (∀ e, r.1.2 = .error e → entry' = entry) ∧
      ∀ key', encoder.entryOf hasher r.2 key' =
        if key' = keyOf template event then some entry'
        else encoder.entryOf hasher cache key'

section entries

variable {std f64 hasher encoder} {template : Template} {event : MetricEvent F} {entry : CachedOid}
  {shared : Shared}

theorem entryKey_setPending (entry : CachedOid) (pending : Bool) :
    encoder.entryKey (entry.setPending pending) = encoder.entryKey entry := rfl

theorem CachedOid.setPending_setPending (entry : CachedOid) (pending pending' : Bool) :
    (entry.setPending pending).setPending pending' = entry.setPending pending' := by
  obtain ⟨name, labels, oid⟩ := entry
  cases oid <;> rfl

theorem CachedOid.setPending_eq (h : entry.oid = .ok shared) :
    entry.setPending shared.companionsPending = entry := by
  obtain ⟨name, labels, oid⟩ := entry
  obtain rfl : oid = .ok shared := h
  rfl

/-- A refused value leaves the octets before its record. -/
theorem take_writeValue {rendered : Rendered} {value : F} {e : ValueError F} {buf header : Octets}
    (h : (writeTlvWith (buf ++ header) .sequence (writeValue f64 template rendered value)).2 = .error e) :
    (writeTlvWith (buf ++ header) .sequence (writeValue f64 template rendered value)).1.take buf.length =
      buf := by
  rcases write_cases f64 template.ty value with ⟨v, hv⟩ | ⟨e', he⟩
  · have hbody : ∀ out, writeValue f64 template rendered value out = (v.write (out ++ rendered.oid), .ok ()) := by
      intro out
      rw [writeValue, hv]
    unfold writeTlvWith at h
    simp only [hbody] at h
    cases h
  · have hbody : ∀ out, writeValue f64 template rendered value out = (out ++ rendered.oid, .error e') := by
      intro out
      rw [writeValue, he]
    rw [writeTlvWith_eq (hbody _)]
    simp only [append_assoc, take_left]

variable (ht : encoder.templates.lookup event.name = some template)

include ht

theorem seriesOf_eq : encoder.seriesOf event = some (keyOf template event) := by
  rw [seriesOf, ht]
  rfl

theorem entryKey_newEntry : encoder.entryKey (newEntry std f64 encoder template event) =
      keyOf template event := by
  unfold entryKey newEntry
  rw [ht]

/-- An entry is of an event's series if it has its key. -/
theorem isSeries_eq : (fun entry : CachedOid => entry.isSeries template event.name event.labels) =
      fun entry => decide (encoder.entryKey entry = keyOf template event) := by
  funext entry
  unfold CachedOid.isSeries entryKey
  rw [Bool.eq_iff_iff, decide_eq_true_iff, Bool.and_eq_true, beq_iff_eq, beq_iff_eq, Prod.mk.injEq]
  refine and_congr_right fun hname => ?_
  rw [hname, ht]

variable (cache : OidCache)

theorem cached_eq : cached hasher cache template event =
      encoder.entryOf hasher cache (keyOf template event) := by
  rw [cached, isSeries_eq ht]
  rfl

theorem entryOf_setPending (pending : Bool) (key : SeriesKey) :
    encoder.entryOf hasher (setPending hasher cache template event pending) key =
      if key = keyOf template event
      then (encoder.entryOf hasher cache key).map fun entry => entry.setPending pending
      else encoder.entryOf hasher cache key := by
  rw [setPending, isSeries_eq ht]
  exact Buckets.entry_update hasher encoder.entryKey (fun e => entryKey_setPending e pending) cache _ key

/-- After `rendered`, the series has an entry: the one it had, or a new one. -/
theorem rendered_eq : let key := keyOf template event
    let entry := (encoder.entryOf hasher cache key).getD (newEntry std f64 encoder template event)
    (rendered std f64 hasher encoder cache template event).1 = entry.instance ∧
      ∀ key', encoder.entryOf hasher (rendered std f64 hasher encoder cache template event).2 key' =
        if key' = key then some entry else encoder.entryOf hasher cache key' := by
  dsimp only
  unfold rendered
  rw [cached_eq ht]
  cases hentry : encoder.entryOf hasher cache (keyOf template event) with
  | some entry =>
    refine ⟨rfl, fun key' => ?_⟩
    dsimp only
    split
    · rename_i hkey
      rw [hkey, hentry]
      rfl
    · rfl
  | none =>
    refine ⟨rfl, fun key' => ?_⟩
    have hpush := Buckets.entry_push hasher encoder.entryKey cache
      (newEntry std f64 encoder template event) key'
    rw [entryKey_newEntry ht] at hpush
    refine hpush.trans ?_
    split
    · rename_i hkey
      rw [hkey, show Buckets.entry hasher encoder.entryKey cache _ = _ from hentry]
      rfl
    · rfl

/-- What is written for an instance, and the entries after it. -/
theorem encodeShared_step {cache : OidCache} (hoid : entry.oid = .ok shared)
    (hentry : encoder.entryOf hasher cache (keyOf template event) = some entry)
    (buf : Octets) :
    Serves std f64 hasher encoder template entry event cache buf
      (encodeShared std f64 hasher cache template event shared buf) := by
  have hset := CachedOid.setPending_eq hoid
  unfold Serves encodeShared writeEntry writeRecord
  rw [hoid]
  dsimp only
  generalize [shared.rendered.indexArcs,
    if shared.companionsPending = true then shared.rendered.companionCount else 0] = header
  have htake := fun e => @take_writeValue F f64 template shared.rendered event.value e buf header
  generalize writeTlvWith (buf ++ header) .sequence
    (writeValue f64 template shared.rendered event.value) = r at htake ⊢
  obtain ⟨out, result⟩ := r
  cases hpending : shared.companionsPending with
  | false =>
    rw [hpending] at hset
    have hkeep : ∀ key', encoder.entryOf hasher cache key' =
        if key' = keyOf template event then some entry
        else encoder.entryOf hasher cache key' := by
      intro key'
      split
      · rename_i hkey
        rw [hkey, hentry]
      · rfl
    cases result with
    | error e => exact ⟨by rw [htake e rfl], entry, nofun, fun _ _ => rfl, hkeep⟩
    | ok _ => exact ⟨rfl, entry, fun _ => hset.symm, nofun, hkeep⟩
  | true =>
    rw [hpending] at hset
    have htaken : ∀ key', encoder.entryOf hasher (setPending hasher cache template event false) key' =
        if key' = keyOf template event then some (entry.setPending false)
        else encoder.entryOf hasher cache key' := by
      intro key'
      rw [entryOf_setPending ht]
      split
      · rename_i hkey
        rw [hkey, hentry]
        rfl
      · rfl
    cases result with
    | error e =>
      refine ⟨by rw [htake e rfl], entry, nofun, fun _ _ => rfl, fun key' => ?_⟩
      simp only [if_true]
      rw [entryOf_setPending ht, htaken]
      split
      · rw [Option.map_some, CachedOid.setPending_setPending, hset]
      · rfl
    | ok _ => exact ⟨rfl, entry.setPending false, fun _ => rfl, nofun, htaken⟩

/-- What a call gives, and the entries after it. -/
theorem encodeMetric_step (buf : Octets) :
    Serves std f64 hasher encoder template
      ((encoder.entryOf hasher cache (keyOf template event)).getD
        (newEntry std f64 encoder template event))
      event cache buf (encoder.encodeMetric std f64 hasher cache event buf) := by
  obtain ⟨hresult, hentries⟩ := @rendered_eq F std f64 hasher encoder template event ht cache
  generalize (encoder.entryOf hasher cache (keyOf template event)).getD
    (newEntry std f64 encoder template event) = entry at hresult hentries ⊢
  unfold encodeMetric templateOf
  rw [ht]
  dsimp only
  generalize rendered std f64 hasher encoder cache template event = looked at hresult hentries ⊢
  obtain ⟨result, cache'⟩ := looked
  subst hresult
  unfold CachedOid.instance
  cases hoid : entry.oid with
  | error reason =>
    refine ⟨?_, entry, nofun, fun _ _ => rfl, hentries⟩
    rw [writeEntry, hoid]
    rfl
  | ok shared =>
    obtain ⟨hwritten, entry', hok, herror, hrest⟩ :=
      @encodeShared_step F std f64 hasher encoder template event entry shared ht cache' hoid
        (by rw [hentries, if_pos rfl]) buf
    refine ⟨hwritten, entry', hok, herror, fun key' => ?_⟩
    refine (hrest key').trans ?_
    split
    · rfl
    · rename_i hkey
      rw [hentries, if_neg hkey]

end entries

/-! ## Events of one series -/

section congruence

variable {std f64 encoder} {template : Template} {event event' : MetricEvent F}
  {labels labels' : Labels}

theorem renderPlaceholders_congr {placeholders : List Placeholder}
    (h : ∀ p ∈ placeholders, labelValue labels p.name = labelValue labels' p.name) :
    ∀ out, renderPlaceholders labels placeholders out = renderPlaceholders labels' placeholders out := by
  induction placeholders with
  | nil => exact fun _ => rfl
  | cons p rest ih =>
    intro out
    have hrest := ih fun q hq => h q (mem_cons_of_mem _ hq)
    unfold renderPlaceholders
    rw [h p mem_cons_self]
    simp only [hrest]

theorem renderInstance_congr {template : OidTemplate}
    (h : ∀ p ∈ template.placeholders, labelValue labels p.name = labelValue labels' p.name) :
    renderInstance std template labels = renderInstance std template labels' := by
  unfold renderInstance OidTemplate.render
  rw [renderPlaceholders_congr h]

/-- The label columns read the same labels of two events. -/
def SameColumns (encoder : SnmpEncoder) (event event' : MetricEvent F) : Prop :=
  ∀ column ∈ encoder.columns,
    labelValue event.labels column.label = labelValue event'.labels column.label ∧
      ∀ p ∈ column.template.placeholders, labelValue event.labels p.name = labelValue event'.labels p.name

theorem renderColumns_congr (hname : event.name = event'.name) {columns : List Column}
    (h : ∀ column ∈ columns,
      labelValue event.labels column.label = labelValue event'.labels column.label ∧
        ∀ p ∈ column.template.placeholders,
          labelValue event.labels p.name = labelValue event'.labels p.name) :
    ∀ companions count, renderColumns std f64 event columns companions count =
      renderColumns std f64 event' columns companions count := by
  induction columns with
  | nil => exact fun _ _ => rfl
  | cons column columns ih =>
    intro companions count
    obtain ⟨hlabel, hplaceholders⟩ := h column mem_cons_self
    have hrest := ih fun c hc => h c (mem_cons_of_mem _ hc)
    unfold renderColumns
    rw [hlabel, hname, renderInstance_congr hplaceholders]
    simp only [hrest]

/-- A label that the template can see is among the labels it sees. -/
theorem labelValue_seen {label : Text} (h : label ∉ template.unseen) (labels : Labels) :
    labelValue (template.seen labels) label = labelValue labels label := by
  unfold labelValue Template.seen
  rw [find?_filter]
  refine congrArg (Option.map Prod.snd) (congrArg (fun p => find? p labels) (funext fun entry => ?_))
  by_cases hlabel : entry.1 = label
  · rw [hlabel]
    simpa using h
  · simp [hlabel]

/-- The labels a template cannot see are covered. -/
theorem uncoveredLabel_seen (hunseen : template.unseen = unseenLabels encoder.cfg template.template)
    (labels : Labels) :
    uncoveredLabel encoder.cfg template.template ((template.seen labels).map Prod.fst) =
      uncoveredLabel encoder.cfg template.template (labels.map Prod.fst) := by
  unfold uncoveredLabel Template.seen
  rw [find?_map, find?_map, find?_filter]
  refine congrArg (Option.map Prod.fst) (congrArg (fun p => find? p labels) (funext fun entry => ?_))
  by_cases hmem : entry.1 ∈ template.unseen
  · have hcovered : entry.1 = encoder.cfg.agentLabel ∨ entry.1 ∈ encoder.cfg.dropLabels := by
      rw [hunseen, unseenLabels, mem_filter] at hmem
      exact mem_cons.mp hmem.1
    rcases hcovered with h | h <;> simp [h]
  · have hnot : (!template.unseen.contains entry.1) = true := by simpa using hmem
    simp only [hnot, true_and, Bool.decide_eq_true]

/-- Events of one series render the same where the label columns read the same
labels of them. -/
theorem renderOid_congr (ht : encoder.templates.lookup event.name = some template)
    (hname : event.name = event'.name) (hseen : template.seen event.labels = template.seen event'.labels)
    (hcolumns : SameColumns encoder event event') :
    encoder.renderOid std f64 template event = encoder.renderOid std f64 template event' := by
  have hunseen := encoder.unseen_eq _ _ ht
  have hplaceholders : ∀ p ∈ template.template.placeholders,
      labelValue event.labels p.name = labelValue event'.labels p.name := by
    intro p hp
    have hnot : p.name ∉ template.unseen := by
      rw [hunseen, unseenLabels, mem_filter]
      rintro ⟨-, hnone⟩
      rw [Bool.not_eq_true', any_eq_false] at hnone
      exact hnone p hp (beq_self_eq_true _)
    rw [← labelValue_seen hnot, hseen, labelValue_seen hnot]
  unfold renderOid
  rw [← uncoveredLabel_seen hunseen, hseen, uncoveredLabel_seen hunseen, hname,
    renderInstance_congr hplaceholders, renderColumns_congr hname hcolumns]

end congruence

/-! ## Runs -/

/-- A call of `encode_metric`, with its buffer before and after. -/
structure Call (F : Type) where
  event : MetricEvent F
  buf : Octets
  out : Octets
  result : Except SondaError Unit

/-- Calls on one encoder. -/
def calls : Machine OidCache (MetricEvent F × Octets) (Call F) where
  step cache input :=
    let r := encoder.encodeMetric std f64 hasher cache input.1 input.2
    some (r.2, [⟨input.1, input.2, r.1.1, r.1.2⟩])

/-- A call for an event of a series. -/
def isOf (key : SeriesKey) (call : Call F) : Bool := decide (encoder.seriesOf call.event = some key)

/-- The first event of a series. -/
def firstOf (log : List (Call F)) (key : SeriesKey) : Option (MetricEvent F) :=
  (log.find? (encoder.isOf key)).map Call.event

/-- A record of a series was written. -/
def served (log : List (Call F)) (key : SeriesKey) : Bool :=
  log.any fun call => call.result.isOk && encoder.isOf key call

/-- The entry of a series by its first event. -/
def entryAs (template : Template) (first : MetricEvent F) (served : Bool) : CachedOid :=
  { newEntry std f64 encoder template first with
    oid := (encoder.renderOid std f64 template first).map fun shared =>
      { shared with companionsPending := shared.companionsPending && !served } }

/-- The cache has the series of `log`, each as its first event renders, its
companions pending until a record was written. -/
def Tracks (cache : OidCache) (log : List (Call F)) : Prop :=
  ∀ key template, encoder.templates.lookup key.1 = some template →
    encoder.entryOf hasher cache key =
      (encoder.firstOf log key).map fun first =>
        entryAs std f64 encoder template first (encoder.served log key)

section runs

variable {std f64 hasher encoder} {log : List (Call F)} {key : SeriesKey} {call : Call F}
  {template : Template} {first : MetricEvent F} {event : MetricEvent F} {cache : OidCache}

theorem firstOf_append : encoder.firstOf (log ++ [call]) key =
    (encoder.firstOf log key).or (if encoder.seriesOf call.event = some key then some call.event else none) := by
  unfold firstOf
  rw [find?_append, Option.map_or]
  by_cases h : encoder.seriesOf call.event = some key
  · rw [if_pos h, find?_cons, isOf, decide_eq_true h]
    rfl
  · rw [if_neg h, find?_cons, isOf, decide_eq_false h]
    rfl

theorem served_append : encoder.served (log ++ [call]) key =
    (encoder.served log key || (call.result.isOk && encoder.isOf key call)) := by
  simp [served]

theorem served_of_firstOf (h : encoder.firstOf log key = none) : encoder.served log key = false := by
  rw [firstOf, Option.map_eq_none_iff, find?_eq_none] at h
  rw [served, any_eq_false]
  intro call hcall
  simp [h call hcall]

theorem entryAs_false : entryAs std f64 encoder template first false =
    newEntry std f64 encoder template first := by
  unfold entryAs newEntry
  cases encoder.renderOid std f64 template first with
  | error reason => rfl
  | ok shared => simp [Except.map]

theorem entryAs_setPending (served : Bool) :
    (entryAs std f64 encoder template first served).setPending false =
      entryAs std f64 encoder template first true := by
  unfold entryAs CachedOid.setPending
  cases encoder.renderOid std f64 template first with
  | error reason => rfl
  | ok shared => simp [Except.map]

/-- The entry that a call for an event of a series finds or makes. -/
theorem getD_entry : ((encoder.firstOf log key).map fun first =>
      entryAs std f64 encoder template first (encoder.served log key)).getD
        (newEntry std f64 encoder template event) =
      entryAs std f64 encoder template ((encoder.firstOf log key).getD event) (encoder.served log key) := by
  cases h : encoder.firstOf log key with
  | none =>
    rw [served_of_firstOf h]
    exact entryAs_false.symm
  | some first => rfl

/-- What a call gives after the calls of `log`. -/
theorem encodeMetric_of_tracks (htracks : Tracks std f64 hasher encoder cache log)
    (ht : encoder.templates.lookup event.name = some template) (buf : Octets) :
    let key := keyOf template event
    let entry := entryAs std f64 encoder template ((encoder.firstOf log key).getD event)
      (encoder.served log key)
    Serves std f64 hasher encoder template entry event cache buf
      (encoder.encodeMetric std f64 hasher cache event buf) := by
  have hstep := @encodeMetric_step F std f64 hasher encoder template event ht cache buf
  rw [htracks (keyOf template event) template ht, getD_entry] at hstep
  exact hstep

/-- A call for a metric without a template. -/
theorem encodeMetric_of_none (h : encoder.templates.lookup event.name = none) (cache : OidCache)
    (buf : Octets) :
    ∃ e, encoder.encodeMetric std f64 hasher cache event buf = ((buf, .error e), cache) := by
  unfold encodeMetric templateOf
  rw [h]
  exact ⟨_, rfl⟩

/-- A call that is not of a series changes nothing of it. -/
theorem history_of_ne (h : encoder.seriesOf call.event ≠ some key) :
    encoder.firstOf (log ++ [call]) key = encoder.firstOf log key ∧
      encoder.served (log ++ [call]) key = encoder.served log key := by
  rw [firstOf_append, served_append, if_neg h, Option.or_none, isOf, decide_eq_false h, Bool.and_false,
    Bool.or_false]
  exact ⟨rfl, rfl⟩

/-- A call keeps track. -/
theorem Tracks.step (htracks : Tracks std f64 hasher encoder cache log) (event : MetricEvent F)
    (buf : Octets) :
    let r := encoder.encodeMetric std f64 hasher cache event buf
    Tracks std f64 hasher encoder r.2 (log ++ [⟨event, buf, r.1.1, r.1.2⟩]) := by
  intro r key template hlookup
  cases ht : encoder.templates.lookup event.name with
  | none =>
    obtain ⟨e, he⟩ := @encodeMetric_of_none F std f64 hasher encoder event ht cache buf
    have hne : encoder.seriesOf event ≠ some key := by
      rw [seriesOf, ht]
      exact nofun
    obtain ⟨hfirst, hserved⟩ := @history_of_ne F encoder log key ⟨event, buf, r.1.1, r.1.2⟩ hne
    rw [hfirst, hserved, show r.2 = cache from congrArg Prod.snd he]
    exact htracks key template hlookup
  | some template' =>
    obtain ⟨-, entry', hok, herror, hentries⟩ := encodeMetric_of_tracks htracks ht buf
    have hseries := seriesOf_eq ht
    rw [hentries]
    by_cases hkey : key = keyOf template' event
    · subst hkey
      obtain rfl : template' = template := Option.some.inj (ht.symm.trans hlookup)
      rw [if_pos rfl, firstOf_append, if_pos hseries, served_append, isOf, decide_eq_true hseries,
        Bool.and_true]
      have hfirst : ∀ found : Option (MetricEvent F), found.or (some event) = some (found.getD event) := by
        intro found
        cases found <;> rfl
      rw [hfirst, Option.map_some]
      cases hresult : r.1.2 with
      | ok _ =>
        rw [hok hresult, entryAs_setPending, Except.isOk, Except.toBool, Bool.or_true]
      | error e =>
        rw [herror e hresult, Except.isOk, Except.toBool, Bool.or_false]
    · have hne : encoder.seriesOf event ≠ some key := by
        rw [hseries]
        exact fun h => hkey (Option.some.inj h).symm
      obtain ⟨hfirst, hserved⟩ := @history_of_ne F encoder log key ⟨event, buf, r.1.1, r.1.2⟩ hne
      rw [if_neg hkey, hfirst, hserved]
      exact htracks key template hlookup

/-- Every run of calls is tracked. -/
theorem tracks_of_run (hrun : (calls std f64 hasher encoder).Run (fun _ _ => True) ∅ cache log) :
    Tracks std f64 hasher encoder cache log := by
  refine hrun.invariant (fun key template _ => rfl) ?_
  intro cache log input cache' es htracks _ hstep
  cases hstep
  exact htracks.step input.1 input.2

end runs

end Sonda.Snmp.SnmpEncoder
