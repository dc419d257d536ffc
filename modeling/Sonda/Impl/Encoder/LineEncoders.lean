import Sonda.Impl.Config.Labels

/-!
# Encoders that write lines

`sonda-core/src/encoder/prometheus.rs`, `influx.rs`, `syslog.rs` and `json.rs`, with
`write_value` and `format_rfc3339_millis_array` of `mod.rs`, and the events of `model/`.
An encoder gives the bytes that it appends to the buffer. Texts are their bytes, and an
instant is a number of nanoseconds since the Unix epoch.
-/

namespace Sonda.Encoder

open Framework (decimal isDigit octetOf beDigits)
open Config (Text isAsciiAlphabetic isValidLabelKey)
open Sonda.Schedule (SondaError EncoderError)

/-! ## Events -/

def isValidMetricName : Text → Bool
  | [] => false
  | c :: rest =>
    (isAsciiAlphabetic c || c == 0x5f || c == 0x3a) &&
      rest.all fun c => isAsciiAlphabetic c || isDigit c || c == 0x5f || c == 0x3a

structure ValidatedMetricName where
  name : Text
  valid : isValidMetricName name = true

/-- Labels in the order of their keys. `from_pairs` checks the keys, and the validation of a
scenario those of the dynamic labels and of the spikes, which the runners insert. -/
structure Labels where
  entries : List (Text × Text)
  ordered : entries.Pairwise fun a b => a.1 < b.1
  valid : ∀ entry ∈ entries, isValidLabelKey entry.1 = true

structure MetricEvent (F : Type) where
  name : ValidatedMetricName
  value : F
  labels : Labels
  timestamp : Int

inductive Severity
  | trace
  | debug
  | info
  | warn
  | error
  | fatal

structure LogEvent where
  timestamp : Int
  severity : Severity
  message : Text
  labels : Labels
  fields : List (Text × Text)

/-! ## What the encoders share -/

/-- An encoder fails with an error, or panics. -/
inductive Failure
  | error (e : SondaError)
  | panic

def newline : UInt8 := 0x0a

/-- A text of the source. -/
def ascii (s : String) : Text := s.toList.map octetOf

/-- A byte of a number as `{}` writes it: digits, a sign, a point, `inf` and `NaN`. -/
def isNumberByte (byte : UInt8) : Bool := isDigit byte || (ascii "-.infNa").contains byte

/-- How the standard library and `serde_json` write a number. -/
structure StdNumber (F : Type) where
  /-- `{}`, or `{:.n}`. -/
  display : F → Option UInt8 → Text
  json : F → Text
  /-- To a number of decimal places. -/
  round : F → UInt8 → F
  display_bytes : ∀ v precision, ∀ byte ∈ display v precision, isNumberByte byte = true
  json_line : ∀ v, newline ∉ json v

def writeValue {F : Type} (std : StdNumber F) (value : F) (precision : Option UInt8) : Text :=
  std.display value precision

/-- The nanoseconds of an instant, which is not before the epoch. -/
def sinceEpoch (timestamp : Int) : Except Failure Nat :=
  if timestamp < 0 then
    .error (.error (.encoder (.timestampBeforeEpoch "second time provided was later than self")))
  else .ok timestamp.toNat

/-- In decimal, with zeros in front up to the width. -/
def padded (width n : Nat) : Text := List.replicate (width - (decimal n).length) 0x30 ++ decimal n

/-- The year, the month and the day of a number of days since the epoch. -/
def civilFromDays (days : Nat) : Nat × Nat × Nat :=
  let z := days + 719468
  let era := z / 146097
  let doe := z - era * 146097
  let yoe := (doe - doe / 1460 + doe / 36524 - doe / 146096) / 365
  let y := yoe + era * 400
  let doy := doe - (365 * yoe + yoe / 4 - yoe / 100)
  let mp := (5 * doy + 2) / 153
  let day := doy - (153 * mp + 2) / 5 + 1
  let month := if mp < 10 then mp + 3 else mp - 9
  let year := if month ≤ 2 then y + 1 else y
  (year, month, day)

def rfc3339MillisLen : Nat := 24

/-- A text that is too long for the array panics. -/
def formatRfc3339MillisArray (timestamp : Int) : Except Failure Text := do
  let duration ← sinceEpoch timestamp
  let totalSecs := duration / 1000000000
  let millis := duration / 1000000 % 1000
  let (year, month, day) := civilFromDays (totalSecs / 86400)
  let timeOfDay := totalSecs % 86400
  let text := padded 4 year ++ ascii "-" ++ padded 2 month ++ ascii "-" ++ padded 2 day ++ ascii "T" ++
    padded 2 (timeOfDay / 3600) ++ ascii ":" ++ padded 2 (timeOfDay % 3600 / 60) ++ ascii ":" ++
    padded 2 (timeOfDay % 60) ++ ascii "." ++ padded 3 millis ++ ascii "Z"
  if text.length ≤ rfc3339MillisLen then .ok text else .error .panic

/-! ## Prometheus text -/

def escapeLabelValue (value : Text) : Text :=
  value.flatMap fun byte =>
    if byte = 0x5c then [0x5c, 0x5c]
    else if byte = 0x22 then [0x5c, 0x22]
    else if byte = newline then [0x5c, 0x6e]
    else [byte]

def labelText (label : Text × Text) : Text :=
  label.1 ++ [0x3d, 0x22] ++ escapeLabelValue label.2 ++ [0x22]

def labelBlock (labels : Labels) : Text :=
  if labels.entries.isEmpty then []
  else [0x7b] ++ [0x2c].intercalate (labels.entries.map labelText) ++ [0x7d]

variable {F : Type} (std : StdNumber F) (precision : Option UInt8)

def prometheusMetric (emitTimestamp : Bool) (event : MetricEvent F) : Except Failure Text := do
  let lead := event.name.name ++ labelBlock event.labels ++ [0x20] ++
    writeValue std event.value precision
  if emitTimestamp then
    let timestamp ← sinceEpoch event.timestamp
    .ok (lead ++ [0x20] ++ decimal (timestamp / 1000000) ++ [newline])
  else .ok (lead ++ [newline])

/-! ## Influx line protocol -/

def escapeTag (s : Text) : Text :=
  s.flatMap fun byte => if byte = 0x2c ∨ byte = 0x20 ∨ byte = 0x3d then [0x5c, byte] else [byte]

def fieldKeyEscaped (fieldKey : Option Text) : Text := escapeTag (fieldKey.getD (ascii "value"))

def tagText (label : Text × Text) : Text := escapeTag label.1 ++ [0x3d] ++ escapeTag label.2

def tagSet (labels : Labels) : Text :=
  if labels.entries.isEmpty then []
  else [0x2c] ++ [0x2c].intercalate (labels.entries.map tagText)

def influxMetric (fieldKey : Option Text) (precision : Option UInt8) (event : MetricEvent F) :
    Except Failure Text := do
  let lead := escapeTag event.name.name ++ tagSet event.labels ++ [0x20] ++ fieldKeyEscaped fieldKey ++
    [0x3d] ++ writeValue std event.value precision
  let timestamp ← sinceEpoch event.timestamp
  .ok (lead ++ [0x20] ++ decimal timestamp ++ [newline])

/-! ## Syslog -/

def facilityUser : Nat := 1

def syslogVersion : Nat := 1

def nilvalue : Text := ascii "-"

def severityToSyslog : Severity → Nat
  | .fatal => 0
  | .error => 3
  | .warn => 4
  | .info => 6
  | .debug => 7
  | .trace => 7

def escapeParam (value : Text) : Text :=
  value.flatMap fun byte => if byte = 0x5c ∨ byte = 0x5d ∨ byte = 0x22 then [0x5c, byte] else [byte]

def paramText (label : Text × Text) : Text :=
  [0x20] ++ label.1 ++ [0x3d, 0x22] ++ escapeParam label.2 ++ [0x22]

def structuredData (labels : Labels) : Text :=
  if labels.entries.isEmpty then nilvalue
  else ascii "[sonda" ++ labels.entries.flatMap paramText ++ ascii "]"

def syslogLog (hostname appName : Option Text) (event : LogEvent) : Except Failure Text := do
  let timestamp ← formatRfc3339MillisArray event.timestamp
  .ok (ascii "<" ++ decimal (facilityUser * 8 + severityToSyslog event.severity) ++ ascii ">" ++
    decimal syslogVersion ++ ascii " " ++ timestamp ++ ascii " " ++ hostname.getD (ascii "sonda") ++ ascii " " ++
    appName.getD (ascii "sonda") ++ ascii " " ++ nilvalue ++ ascii " " ++ nilvalue ++ ascii " " ++
    structuredData event.labels ++ ascii " " ++ event.message ++ [newline])

/-! ## JSON lines -/

/-- `serde_json` on one byte of a string. -/
def jsonByte (byte : UInt8) : Text :=
  if byte = 0x22 then ascii "\\\""
  else if byte = 0x5c then ascii "\\\\"
  else if byte = 0x08 then ascii "\\b"
  else if byte = 0x0c then ascii "\\f"
  else if byte = newline then ascii "\\n"
  else if byte = 0x0d then ascii "\\r"
  else if byte = 0x09 then ascii "\\t"
  else if byte < 0x20 then ascii "\\u00" ++ (beDigits 16 2 byte.toNat).map fun d => octetOf d.digitChar
  else [byte]

def jsonString (s : Text) : Text := [0x22] ++ s.flatMap jsonByte ++ [0x22]

def jsonEntry (entry : Text × Text) : Text := jsonString entry.1 ++ [0x3a] ++ jsonString entry.2

def jsonMap (entries : List (Text × Text)) : Text :=
  [0x7b] ++ [0x2c].intercalate (entries.map jsonEntry) ++ [0x7d]

def severityText : Severity → Text
  | .trace => ascii "trace"
  | .debug => ascii "debug"
  | .info => ascii "info"
  | .warn => ascii "warn"
  | .error => ascii "error"
  | .fatal => ascii "fatal"

def roundedValue (value : F) : F :=
  match precision with
  | none => value
  | some n => std.round value n

def jsonMetric (event : MetricEvent F) : Except Failure Text := do
  let timestamp ← formatRfc3339MillisArray event.timestamp
  .ok ([0x7b] ++ ascii "\"name\":" ++ jsonString event.name.name ++ ascii ",\"value\":" ++
    std.json (roundedValue std precision event.value) ++ ascii ",\"labels\":" ++ jsonMap event.labels.entries ++
    ascii ",\"timestamp\":" ++ jsonString timestamp ++ [0x7d] ++ [newline])

def jsonLog (event : LogEvent) : Except Failure Text := do
  let timestamp ← formatRfc3339MillisArray event.timestamp
  .ok ([0x7b] ++ ascii "\"timestamp\":" ++ jsonString timestamp ++ ascii ",\"severity\":" ++
    jsonString (severityText event.severity) ++ ascii ",\"message\":" ++ jsonString event.message ++
    ascii ",\"labels\":" ++ jsonMap event.labels.entries ++ ascii ",\"fields\":" ++ jsonMap event.fields ++ [0x7d] ++
    [newline])

/-! ## Encoders -/

inductive LineEncoder
  | prometheusText (precision : Option UInt8) (emitTimestamp : Bool)
  | influxLineProtocol (fieldKey : Option Text) (precision : Option UInt8)
  | syslog (hostname appName : Option Text)
  | jsonLines (precision : Option UInt8)

inductive Event (F : Type)
  | metric (event : MetricEvent F)
  | log (event : LogEvent)

/-- `encode_log` of an encoder that has none. -/
def logNotSupported : Failure :=
  .error (.encoder (.notSupported "log encoding not supported by this encoder"))

def metricNotSupported : Failure :=
  .error (.encoder (.notSupported "metric encoding not supported by syslog encoder"))

/-- The bytes that the event appends to the buffer. -/
def encodedBytes : LineEncoder → Event F → Except Failure Text
  | .prometheusText precision emitTimestamp, .metric event => prometheusMetric std precision emitTimestamp event
  | .influxLineProtocol fieldKey precision, .metric event => influxMetric std fieldKey precision event
  | .jsonLines precision, .metric event => jsonMetric std precision event
  | .syslog _ _, .metric _ => .error metricNotSupported
  | .syslog hostname appName, .log event => syslogLog hostname appName event
  | .jsonLines _, .log event => jsonLog event
  | .prometheusText _ _, .log _ => .error logNotSupported
  | .influxLineProtocol _ _, .log _ => .error logNotSupported

/-- `encode_metric` or `encode_log` into a buffer. -/
def encode (encoder : LineEncoder) (event : Event F) (buf : Text) : Except Failure Text := do
  let bytes ← encodedBytes std encoder event
  .ok (buf ++ bytes)

end Sonda.Encoder
