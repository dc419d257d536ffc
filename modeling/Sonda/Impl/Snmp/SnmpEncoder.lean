import Sonda.Framework.Buckets
import Sonda.Impl.Snmp.Encoder
import Sonda.Impl.Snmp.ValueType

/-!
# The encoder of an agent's metrics

`SnmpEncoder` of `sonda-core/src/encoder/snmp/mod.rs`: `new`, `rendered` with
the cache of series, `render_oid` and `encode_metric`. The templates of a
config are given parsed. The hasher of the standard library is a function of
what it is given.

The cache and the flag of each series' pending companions are what a call
changes. Calls come one after the other, so a call is a function of the cache.
-/

namespace Sonda.Snmp

open Framework
open Sonda.Schedule (SondaError EncoderError)

/-! ## The config -/

structure LabelColumn where
  oid : OidTemplate
  ty : Option SnmpValueType
  deriving DecidableEq

structure SnmpEncoderConfig where
  agentLabel : Text
  oids : AList fun _ : Text => OidTemplate
  labelColumns : AList fun _ : Text => LabelColumn
  types : AList fun _ : Text => SnmpValueType
  dropLabels : List Text

variable (cfg : SnmpEncoderConfig)

/-- The first of `keys` that `template` does not cover. -/
def uncoveredLabel (template : OidTemplate) (keys : List Text) : Option Text :=
  keys.find? fun key =>
    key != cfg.agentLabel && !cfg.dropLabels.contains key && (cfg.labelColumns.lookup key).isNone &&
      !template.placeholders.any fun p => p.name == key

/-! ## The encoder -/

structure SnmpEncoder.Column where
  label : Text
  template : OidTemplate
  ty : Option SnmpValueType
  deriving DecidableEq

/-- The labels of a config that `template` cannot see. -/
def unseenLabels (template : OidTemplate) : List Text :=
  (cfg.agentLabel :: cfg.dropLabels).filter fun label =>
    !template.placeholders.any fun p => p.name == label

structure Template where
  template : OidTemplate
  ty : SnmpValueType
  unseen : List Text
  deriving DecidableEq

/-- The labels this template can see. -/
def Template.seen (template : Template) (labels : Labels) : Labels :=
  labels.filter fun entry => !template.unseen.contains entry.1

structure SnmpEncoder where
  cfg : SnmpEncoderConfig
  templates : AList fun _ : Text => Template
  /-- In the order of the labels. -/
  columns : List SnmpEncoder.Column
  unseen_eq : ∀ metric template, templates.lookup metric = some template →
    template.unseen = unseenLabels cfg template.template
  columns_le : columns.length ≤ 255

/-- The columns, unless one is of the enum type. -/
def resolvedColumn (label : Text) (column : LabelColumn) : Except SondaError SnmpEncoder.Column :=
  if column.ty.any SnmpValueType.isEnum then
    .error (.config ("snmp encoder label_columns." ++ str label ++ ": " ++ enumColumnRefused))
  else .ok ⟨label, column.oid, column.ty⟩

def resolvedTemplate (metric : Text) (template : OidTemplate) : Template where
  template
  ty := (cfg.types.lookup metric).getD .gauge32
  unseen := unseenLabels cfg template

def resolvedTemplates : AList fun _ : Text => Template where
  entries := cfg.oids.entries.map fun entry => ⟨entry.1, resolvedTemplate cfg entry.1 entry.2⟩
  nodupKeys := by
    have hkeys := cfg.oids.nodupKeys
    rw [List.NodupKeys, List.keys] at hkeys ⊢
    rwa [List.map_map]

theorem lookup_resolvedTemplates {cfg : SnmpEncoderConfig} {metric : Text} {template : Template}
    (h : (resolvedTemplates cfg).lookup metric = some template) :
    template.unseen = unseenLabels cfg template.template := by
  have hmem := List.of_mem_dlookup (show template ∈ (resolvedTemplates cfg).lookup metric from h)
  obtain ⟨entry, -, heq⟩ := List.mem_map.mp hmem
  obtain ⟨rfl, htemplate⟩ := Sigma.mk.inj heq
  obtain rfl := eq_of_heq htemplate
  rfl

def SnmpEncoder.new : Except SondaError SnmpEncoder := do
  let labels := cfg.labelColumns.entries.insertionSort fun a b => a.1 ≤ b.1
  let columns ← labels.mapM fun entry => resolvedColumn entry.1 entry.2
  if h : columns.length ≤ 255 then
    .ok ⟨cfg, resolvedTemplates cfg, columns, fun _ _ => lookup_resolvedTemplates, h⟩
  else
    .error (.config ("snmp encoder has " ++ toString columns.length ++
      " label_columns; a record carries at most 255"))

structure MetricEvent (F : Type) where
  name : Text
  value : F
  labels : Labels

/-- A `Rendered` that the cache shares, with its flag. -/
structure Shared where
  rendered : Rendered
  companionsPending : Bool
  deriving DecidableEq

structure CachedOid where
  name : Text
  labels : Labels
  oid : Except String Shared

abbrev OidCache := Buckets UInt64 CachedOid

def CachedOid.isSeries (entry : CachedOid) (template : Template) (name : Text) (labels : Labels) : Bool :=
  entry.name == name && template.seen entry.labels == template.seen labels

def CachedOid.setPending (entry : CachedOid) (pending : Bool) : CachedOid :=
  { entry with oid := entry.oid.map fun shared => { shared with companionsPending := pending } }

/-- The cached instance, or the cached rejection. -/
def CachedOid.instance (entry : CachedOid) : Except SondaError Shared :=
  entry.oid.mapError fun reason => .encoder (.eventRejected reason)

namespace SnmpEncoder

variable {F : Type} (std : StdText) (f64 : StdFloat F) (hasher : Text × Labels → UInt64)
  (encoder : SnmpEncoder)

def templateOf (metric : Text) : Except SondaError Template :=
  match encoder.templates.lookup metric with
  | some template => .ok template
  | none => .error (.config ("snmp encoder has no OID template for metric " ++ std.quote metric ++
      ": set encoder.oids." ++ str metric))

/-- `fingerprint`: a hash of the name and the labels the template can see. -/
def fingerprint (template : Template) (event : MetricEvent F) : UInt64 :=
  hasher (event.name, template.seen event.labels)

/-- A label column's value written by a closure of `write_tlv`. -/
def writeColumn (column : Column) (oid : Oid) (value : Text) (out : Octets) :
    Octets × Except ColumnError Unit :=
  let out := writeOid out oid
  match writeLabelText f64 column.ty column.label value out with
  | .ok out => (out, .ok ())
  | .error e => (out, .error e)

/-- The loop of `render_oid` over the columns that are left. -/
def renderColumns (event : MetricEvent F) :
    List Column → Octets → UInt8 → Except String (Octets × UInt8)
  | [], companions, count => .ok (companions, count)
  | column :: rest, companions, count =>
    match labelValue event.labels column.label with
    | none => renderColumns event rest companions count
    | some value =>
      let refused (e : String) := "metric " ++ std.quote event.name ++ ": label column " ++
        str column.label ++ ": " ++ e
      match renderInstance std column.template event.labels with
      | .error e => .error (refused e)
      | .ok (oid, arcs) =>
        let r := writeTlvWith (companions ++ [arcs]) .sequence (writeColumn f64 column oid value)
        match r.2 with
        | .error e => .error (refused (e.message std))
        | .ok () => renderColumns event rest r.1 (count + 1)

def renderOid (template : Template) (event : MetricEvent F) : Except String Shared :=
  match uncoveredLabel encoder.cfg template.template (event.labels.map Prod.fst) with
  | some label =>
    .error ("metric " ++ std.quote event.name ++ " carries label `" ++ str label ++
      "`, which the snmp OID template does not reference; reference it as an index placeholder, " ++
      "make it the agent_label, list it in label_columns, or list it in drop_labels")
  | none =>
    match renderInstance std template.template event.labels with
    | .error e => .error ("metric " ++ std.quote event.name ++ ": " ++ e)
    | .ok (oid, indexArcs) => do
      let (companions, companionCount) ← renderColumns std f64 event encoder.columns [] 0
      .ok ⟨⟨writeOid [] oid, indexArcs, companions, companionCount⟩, decide (0 < companionCount)⟩

def cached (cache : OidCache) (template : Template) (event : MetricEvent F) : Option CachedOid :=
  cache.find (fingerprint hasher template event) fun entry =>
    entry.isSeries template event.name event.labels

variable (cache : OidCache) (template : Template) (event : MetricEvent F)

/-- The event's instance, rendered and cached on first sight. -/
def rendered : Except SondaError Shared × OidCache :=
  match cached hasher cache template event with
  | some entry => (entry.instance, cache)
  | none =>
    let entry : CachedOid := ⟨event.name, event.labels, renderOid std f64 encoder template event⟩
    (entry.instance, cache.push (fingerprint hasher template event) entry)

def setPending (pending : Bool) : OidCache :=
  cache.update (fingerprint hasher template event)
    (fun entry => entry.isSeries template event.name event.labels) fun entry => entry.setPending pending

/-- The value written by a closure of `write_tlv`. -/
def writeValue (template : Template) (rendered : Rendered) (value : F) (out : Octets) :
    Octets × Except (ValueError F) Unit :=
  let out := out ++ rendered.oid
  match template.ty.write f64 value out with
  | .ok out => (out, .ok ())
  | .error e => (out, .error e)

/-- `encode_metric` from `take_companions` on, for the event's instance. -/
def encodeShared (shared : Shared) (buf : Octets) : (Octets × Except SondaError Unit) × OidCache :=
  let companions := shared.companionsPending
  let cache := if companions then setPending hasher cache template event false else cache
  let start := buf.length
  let buf := buf ++ [shared.rendered.indexArcs, if companions then shared.rendered.companionCount else 0]
  let r := writeTlvWith buf .sequence (writeValue f64 template shared.rendered event.value)
  match r.2 with
  | .error e =>
    ((r.1.take start, .error (.encoder (.eventRejected
      ("metric " ++ std.quote event.name ++ ": " ++ e.text f64)))),
      if companions then setPending hasher cache template event true else cache)
  | .ok () => ((if companions then r.1 ++ shared.rendered.companions else r.1, .ok ()), cache)

/-- The buffer and the result of a call, and the cache after it. -/
def encodeMetric (cache : OidCache) (event : MetricEvent F) (buf : Octets) :
    (Octets × Except SondaError Unit) × OidCache :=
  match encoder.templateOf std event.name with
  | .error e => ((buf, .error e), cache)
  | .ok template =>
    match rendered std f64 hasher encoder cache template event with
    | (.error e, cache) => ((buf, .error e), cache)
    | (.ok shared, cache) => encodeShared std f64 hasher cache template event shared buf

end SnmpEncoder

end Sonda.Snmp
