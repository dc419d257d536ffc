import Sonda.Framework.Fallible
import Sonda.Framework.Lines
import Sonda.Impl.Encoder.LineEncoders

/-!
# One event is one line

Prometheus text and JSON lines escape every newline. The Influx line protocol writes the
newlines of its tag values and of its field key as they are, and syslog those of its message, its
parameters and its header. `encode_isLine_iff` says when the bytes of an event are one line, and
that the lines of events are then read back from what they were written to.
-/

namespace Sonda.Encoder

open List

open Framework (beDigits octetOf decimal isDigit isDigit_of_mem_decimal bind_ok ok_of_toOption
  IsLine isLine_concat mem_intercalate
  splitOn_ended)
open Config (Text isAsciiAlphabetic isValidLabelKey)

variable {bytes : Text} {precision : Option UInt8} {encoder : LineEncoder} {key : Text}

/-! ## Bytes of names and of keys -/

def isKeyByte (byte : UInt8) : Bool := isAsciiAlphabetic byte || isDigit byte || byte == 0x5f

def isNameByte (byte : UInt8) : Bool := isKeyByte byte || byte == 0x3a

theorem isKeyByte_of_valid (valid : isValidLabelKey key = true) :
    ∀ byte ∈ key, isKeyByte byte = true := by
  cases key with
  | nil => simp
  | cons first rest =>
    simp only [isValidLabelKey, Bool.and_eq_true, Bool.or_eq_true, all_eq_true] at valid
    intro byte hbyte
    simp only [isKeyByte, Bool.or_eq_true]
    rcases mem_cons.1 hbyte with rfl | hbyte
    · exact valid.1.imp_left .inl
    · exact valid.2 byte hbyte

theorem isNameByte_of_key (valid : isValidLabelKey key = true) :
    ∀ byte ∈ key, isNameByte byte = true := by
  intro byte hbyte
  rw [isNameByte, isKeyByte_of_valid valid byte hbyte, Bool.true_or]

theorem isNameByte_of_valid {name : Text} (valid : isValidMetricName name = true) :
    ∀ byte ∈ name, isNameByte byte = true := by
  cases name with
  | nil => simp
  | cons first rest =>
    simp only [isValidMetricName, Bool.and_eq_true, Bool.or_eq_true, all_eq_true] at valid
    intro byte hbyte
    simp only [isNameByte, isKeyByte, Bool.or_eq_true]
    rcases mem_cons.1 hbyte with rfl | hbyte
    · exact valid.1.imp_left (Or.imp_left .inl)
    · exact valid.2 byte hbyte

/-! ## Where a newline stands -/

theorem newline_notMem_decimal (n : Nat) : newline ∉ decimal n := by
  intro h
  have := isDigit_of_mem_decimal h
  revert this
  decide

theorem newline_notMem_padded (width n : Nat) : newline ∉ padded width n := by
  unfold padded
  rw [mem_append, not_or]
  refine ⟨fun h => ?_, newline_notMem_decimal n⟩
  exact absurd (eq_of_mem_replicate h) (by decide)

theorem newline_notMem_name (name : ValidatedMetricName) : newline ∉ name.name :=
  fun h => absurd (isNameByte_of_valid name.valid newline h) (by decide)

theorem newline_notMem_key (valid : isValidLabelKey key = true) : newline ∉ key :=
  fun h => absurd (isNameByte_of_key valid newline h) (by decide)

theorem newline_notMem_escapeLabelValue (value : Text) : newline ∉ escapeLabelValue value := by
  intro h
  obtain ⟨byte, -, hbyte⟩ := mem_flatMap.1 h
  revert hbyte
  split
  · decide
  · split
    · decide
    · split
      · decide
      · rename_i hne
        simpa using fun heq => hne heq.symm

/-- An escape that puts a backslash before a byte leaves the newlines. -/
theorem newline_mem_escaped {p : UInt8 → Prop} [DecidablePred p] (s : Text) :
    (newline ∈ s.flatMap fun byte => if p byte then [0x5c, byte] else [byte]) ↔ newline ∈ s := by
  have hbyte : ∀ byte, newline ∈ (if p byte then [0x5c, byte] else [byte]) ↔ newline = byte := by
    intro byte
    split
    · simp [show newline ≠ 0x5c by decide]
    · simp
  simp only [mem_flatMap, hbyte, exists_eq_right']

theorem newline_mem_escapeTag (s : Text) : newline ∈ escapeTag s ↔ newline ∈ s := newline_mem_escaped s

theorem newline_mem_escapeParam (s : Text) : newline ∈ escapeParam s ↔ newline ∈ s :=
  newline_mem_escaped s

theorem newline_notMem_hex {n : Nat} (h : n < 0x20) :
    newline ∉ (beDigits 16 2 n).map fun d => octetOf d.digitChar := by
  revert n
  decide

theorem newline_notMem_jsonByte (byte : UInt8) : newline ∉ jsonByte byte := by
  have hshort : newline ∉ ascii "\\\"" ∧ newline ∉ ascii "\\\\" ∧ newline ∉ ascii "\\b" ∧ newline ∉ ascii "\\f" ∧
      newline ∉ ascii "\\n" ∧ newline ∉ ascii "\\r" ∧ newline ∉ ascii "\\t" ∧ newline ∉ ascii "\\u00" := by
    decide
  obtain ⟨hquote, hback, hb, hf, hn, hr, ht, hu⟩ := hshort
  unfold jsonByte
  split_ifs with _ _ _ _ hline _ _ hctl
  · exact hquote
  · exact hback
  · exact hb
  · exact hf
  · exact hn
  · exact hr
  · exact ht
  · rw [mem_append, not_or]
    exact ⟨hu, newline_notMem_hex (UInt8.lt_iff_toNat_lt.1 hctl)⟩
  · simpa using fun heq => hline heq.symm

theorem newline_notMem_jsonString (s : Text) : newline ∉ jsonString s := by
  simp only [jsonString, mem_append, mem_flatMap, newline_notMem_jsonByte, and_false, exists_false]
  decide

/-- A newline in parts with commas between them stands in one of the parts. -/
theorem newline_mem_joined {α : Type} (text : α → Text) (l : List α) :
    newline ∈ [0x2c].intercalate (l.map text) ↔ ∃ a ∈ l, newline ∈ text a := by
  rw [mem_intercalate (by decide)]
  simp only [mem_map, exists_exists_and_eq_and]

theorem newline_notMem_jsonMap (entries : List (Text × Text)) : newline ∉ jsonMap entries := by
  have hentry : ∀ entry, newline ∉ jsonEntry entry := by
    intro entry
    simp only [jsonEntry, mem_append, newline_notMem_jsonString]
    decide
  simp only [jsonMap, mem_append, newline_mem_joined, hentry, and_false, exists_false]
  decide

theorem newline_notMem_rfc3339 {timestamp : Int} {text : Text}
    (h : formatRfc3339MillisArray timestamp = .ok text) : newline ∉ text := by
  obtain ⟨duration, -, h⟩ := bind_ok h
  dsimp only at h
  generalize civilFromDays _ = date at h
  split at h
  · rw [← Except.ok.inj h]
    simp only [mem_append, newline_notMem_padded, show newline ∉ ascii "-" by decide,
      show newline ∉ ascii "T" by decide, show newline ∉ ascii ":" by decide, show newline ∉ ascii "." by decide,
      show newline ∉ ascii "Z" by decide, or_self, not_false_eq_true]
  · cases h

/-! ## Labels -/

variable (labels : Labels)

theorem newline_notMem_labelBlock : newline ∉ labelBlock labels := by
  have hlabel : ∀ label ∈ labels.entries, newline ∉ labelText label := by
    intro label hlabel
    simp only [labelText, mem_append, newline_notMem_key (labels.valid label hlabel),
      newline_notMem_escapeLabelValue]
    decide
  have hparts : newline ∉ [0x2c].intercalate (labels.entries.map labelText) := by
    rw [newline_mem_joined]
    exact fun ⟨label, hmem, h⟩ => hlabel label hmem h
  unfold labelBlock
  split
  · exact not_mem_nil
  · simp only [mem_append, hparts]
    decide

/-- Some label value holds a newline. -/
def NewlineInValue : Prop := ∃ label ∈ labels.entries, newline ∈ label.2

theorem newline_mem_tagSet : newline ∈ tagSet labels ↔ NewlineInValue labels := by
  have htag : ∀ label ∈ labels.entries, newline ∈ tagText label ↔ newline ∈ label.2 := by
    intro label hlabel
    simp only [tagText, mem_append, newline_mem_escapeTag, newline_notMem_key (labels.valid label hlabel),
      mem_singleton, show newline ≠ 0x3d by decide, or_self, false_or]
  have hparts : newline ∈ [0x2c].intercalate (labels.entries.map tagText) ↔ NewlineInValue labels := by
    rw [newline_mem_joined]
    exact exists_congr fun label => and_congr_right (htag label)
  unfold tagSet
  split
  · rename_i hempty
    simp [NewlineInValue, isEmpty_iff.1 hempty]
  · simp only [mem_append, hparts, mem_singleton, show newline ≠ 0x2c by decide, false_or]

theorem newline_mem_structuredData : newline ∈ structuredData labels ↔ NewlineInValue labels := by
  have hparam : ∀ label ∈ labels.entries, newline ∈ paramText label ↔ newline ∈ label.2 := by
    intro label hlabel
    simp only [paramText, mem_append, newline_mem_escapeParam,
      newline_notMem_key (labels.valid label hlabel), show newline ∉ [(0x20 : UInt8)] by decide,
      show newline ∉ [(0x3d : UInt8), 0x22] by decide, show newline ∉ [(0x22 : UInt8)] by decide, or_false,
      false_or]
  have hparts : newline ∈ labels.entries.flatMap paramText ↔ NewlineInValue labels := by
    rw [mem_flatMap]
    exact exists_congr fun label => and_congr_right (hparam label)
  unfold structuredData
  split
  · rename_i hempty
    simp only [NewlineInValue, isEmpty_iff.1 hempty, not_mem_nil, false_and, exists_false, iff_false]
    decide
  · simp only [mem_append, hparts, show newline ∉ ascii "[sonda" by decide,
      show newline ∉ ascii "]" by decide, or_false, false_or]

/-! ## Lines -/

/-- No newline stands where the encoder writes it as it is. -/
def LineSafe {F : Type} : LineEncoder → Event F → Prop
  | .influxLineProtocol fieldKey _, .metric event =>
    newline ∉ fieldKey.getD (ascii "value") ∧ ∀ label ∈ event.labels.entries, newline ∉ label.2
  | .syslog hostname appName, .log event =>
    newline ∉ hostname.getD (ascii "sonda") ∧ newline ∉ appName.getD (ascii "sonda") ∧
      newline ∉ event.message ∧ ∀ label ∈ event.labels.entries, newline ∉ label.2
  | _, _ => True

theorem not_newlineInValue {labels : Labels} :
    ¬ NewlineInValue labels ↔ ∀ label ∈ labels.entries, newline ∉ label.2 := by
  simp only [NewlineInValue, not_exists, not_and]

variable {F : Type} {std : StdNumber F}

theorem newline_notMem_writeValue (value : F) (precision : Option UInt8) :
    newline ∉ writeValue std value precision := by
  intro h
  exact absurd (std.display_bytes value precision newline h) (by decide)

theorem prometheusMetric_isLine {emitTimestamp : Bool} {event : MetricEvent F}
    (h : prometheusMetric std precision emitTimestamp event = .ok bytes) :
    IsLine newline bytes := by
  have hlead : newline ∉ event.name.name ++ labelBlock event.labels ++ [0x20] ++
      writeValue std event.value precision := by
    simp only [mem_append, newline_notMem_name, newline_notMem_labelBlock, newline_notMem_writeValue]
    decide
  unfold prometheusMetric at h
  split at h
  · obtain ⟨timestamp, -, h⟩ := bind_ok h
    rw [← Except.ok.inj h, isLine_concat, mem_append, mem_append]
    simp only [hlead, newline_notMem_decimal]
    decide
  · rw [← Except.ok.inj h]
    exact isLine_concat.2 hlead

theorem influxMetric_isLine_iff {fieldKey : Option Text} {event : MetricEvent F}
    (h : influxMetric std fieldKey precision event = .ok bytes) :
    IsLine newline bytes ↔
      newline ∉ fieldKey.getD (ascii "value") ∧ ∀ label ∈ event.labels.entries, newline ∉ label.2 := by
  obtain ⟨timestamp, -, h⟩ := bind_ok h
  rw [← Except.ok.inj h, isLine_concat, ← not_newlineInValue, ← not_or]
  simp only [mem_append, newline_mem_escapeTag, newline_notMem_name, newline_mem_tagSet, fieldKeyEscaped,
    newline_notMem_writeValue, newline_notMem_decimal, mem_singleton,
    show newline ≠ 0x20 by decide, show newline ≠ 0x3d by decide, or_false, false_or]
  rw [or_comm]

theorem syslogLog_isLine_iff {hostname appName : Option Text} {event : LogEvent}
    (h : syslogLog hostname appName event = .ok bytes) :
    IsLine newline bytes ↔
      newline ∉ hostname.getD (ascii "sonda") ∧ newline ∉ appName.getD (ascii "sonda") ∧
        newline ∉ event.message ∧ ∀ label ∈ event.labels.entries, newline ∉ label.2 := by
  obtain ⟨timestamp, htimestamp, h⟩ := bind_ok h
  rw [← Except.ok.inj h, isLine_concat, ← not_newlineInValue]
  simp only [mem_append, newline_notMem_decimal, newline_notMem_rfc3339 htimestamp,
    newline_mem_structuredData, show newline ∉ ascii "<" by decide, show newline ∉ ascii ">" by decide,
    show newline ∉ ascii " " by decide, show newline ∉ nilvalue by decide, or_false, false_or, not_or]
  tauto

theorem jsonMetric_isLine {event : MetricEvent F} (h : jsonMetric std precision event = .ok bytes) :
    IsLine newline bytes := by
  obtain ⟨timestamp, -, h⟩ := bind_ok h
  rw [← Except.ok.inj h, isLine_concat]
  simp only [mem_append, newline_notMem_jsonString, newline_notMem_jsonMap, std.json_line]
  decide

theorem jsonLog_isLine {event : LogEvent} (h : jsonLog event = .ok bytes) :
    IsLine newline bytes := by
  obtain ⟨timestamp, -, h⟩ := bind_ok h
  rw [← Except.ok.inj h, isLine_concat]
  simp only [mem_append, newline_notMem_jsonString, newline_notMem_jsonMap]
  decide

theorem encodedBytes_isLine_iff {event : Event F} (h : encodedBytes std encoder event = .ok bytes) :
    IsLine newline bytes ↔ LineSafe encoder event := by
  cases encoder <;> cases event
  case prometheusText.metric => exact iff_of_true (prometheusMetric_isLine h) trivial
  case influxLineProtocol.metric => exact influxMetric_isLine_iff h
  case jsonLines.metric => exact iff_of_true (jsonMetric_isLine h) trivial
  case syslog.log => exact syslogLog_isLine_iff h
  case jsonLines.log => exact iff_of_true (jsonLog_isLine h) trivial
  all_goals cases h

/-! ## Runs of events -/

/-- The events one after the other into a buffer. -/
def encodeAll (std : StdNumber F) (encoder : LineEncoder) (events : List (Event F)) (buf : Text) :
    Except Failure Text :=
  events.foldlM (fun buf event => encode std encoder event buf) buf

/-- The text is the line of the event, without its newline. -/
def LineOf (std : StdNumber F) (encoder : LineEncoder) (event : Event F) (line : Text) : Prop :=
  newline ∉ line ∧ encodedBytes std encoder event = .ok (line ++ [newline])

theorem encode_ok {event : Event F} {buf out : Text} (h : encode std encoder event buf = .ok out) :
    ∃ bytes, encodedBytes std encoder event = .ok bytes ∧ out = buf ++ bytes := by
  obtain ⟨bytes, hbytes, h⟩ := bind_ok h
  cases h
  exact ⟨bytes, hbytes, rfl⟩

theorem encodeAll_lines {events : List (Event F)} (hsafe : ∀ event ∈ events, LineSafe encoder event)
    {buf out : Text} (h : encodeAll std encoder events buf = .ok out) :
    ∃ lines, List.Forall₂ (LineOf std encoder) events lines ∧
      out = buf ++ lines.flatMap fun line => line ++ [newline] := by
  induction events generalizing buf with
  | nil =>
    cases h
    exact ⟨[], .nil, (append_nil _).symm⟩
  | cons event events ih =>
    obtain ⟨hevent, hevents⟩ := forall_mem_cons.1 hsafe
    obtain ⟨next, hnext, h⟩ := bind_ok h
    obtain ⟨bytes, hbytes, rfl⟩ := encode_ok hnext
    obtain ⟨line, hline, rfl⟩ := (encodedBytes_isLine_iff hbytes).2 hevent
    obtain ⟨lines, hlines, rfl⟩ := ih hevents h
    refine ⟨line :: lines, .cons ⟨hline, hbytes⟩ hlines, ?_⟩
    rw [flatMap_cons, append_assoc]

/-- An event appends one line exactly when no newline stands where the encoder writes it as it
is. Such events are read back, each from its line. -/
theorem encode_isLine_iff (std : StdNumber F) (encoder : LineEncoder) :
    (∀ event buf out, encode std encoder event buf = .ok out →
      ((∃ bytes, out = buf ++ bytes ∧ IsLine newline bytes) ↔ LineSafe encoder event)) ∧
    ∀ events out, encodeAll std encoder events [] = .ok out → (∀ event ∈ events, LineSafe encoder event) →
      ∃ lines, List.Forall₂ (LineOf std encoder) events lines ∧ out.splitOn newline = lines ++ [[]] := by
  refine ⟨fun event buf out h => ?_, fun events out h hsafe => ?_⟩
  · obtain ⟨bytes, hbytes, rfl⟩ := encode_ok h
    rw [← encodedBytes_isLine_iff hbytes]
    refine ⟨fun ⟨bytes', heq, hline⟩ => ?_, fun hline => ⟨bytes, rfl, hline⟩⟩
    rwa [append_cancel_left heq]
  · obtain ⟨lines, hlines, rfl⟩ := encodeAll_lines hsafe h
    refine ⟨lines, hlines, ?_⟩
    have hmark : ∀ line ∈ lines, newline ∉ line :=
      ((forall₂_and_left lines events).1 hlines.flip).1
    rw [nil_append, splitOn_ended hmark]

/-- Whole numbers, as the standard library and `serde_json` write them as floats. -/
def wholeNumber : StdNumber Nat where
  display v _ := decimal v
  json v := decimal v ++ ascii ".0"
  round v _ := v
  display_bytes v _ byte h := by
    rw [isNumberByte, isDigit_of_mem_decimal h, Bool.true_or]
  json_line v := by
    rw [List.mem_append, not_or]
    exact ⟨newline_notMem_decimal v, by decide⟩

def noLabels : Labels := ⟨[], .nil, by simp⟩

def zoneLabel (value : Text) : Labels := ⟨[(ascii "zone", value)], List.pairwise_singleton _ _, by
  intro entry hentry
  rw [List.mem_singleton.1 hentry]
  show isValidLabelKey (ascii "zone") = true
  decide⟩

def upMetric (zone : Text) : MetricEvent Nat := ⟨⟨ascii "up", by decide⟩, 1, zoneLabel zone, 0⟩

def infoLog (message : Text) : LogEvent := ⟨0, .info, message, noLabels, []⟩

/-- A newline in a message, or in a tag value, is written as it is. -/
theorem encode_split :
    (∃ out, encode wholeNumber (.syslog none none) (.log (infoLog (ascii "a\nb"))) [] = .ok out ∧
      out = ascii "<14>1 1970-01-01T00:00:00.000Z sonda sonda - - - a\nb\n" ∧ ¬ IsLine newline out) ∧
    ∃ out, encode wholeNumber (.influxLineProtocol none none) (.metric (upMetric (ascii "a\nb"))) [] = .ok out ∧
      out = ascii "up,zone=a\nb value=1 0\n" ∧ ¬ IsLine newline out := by
  have hsyslog : encodedBytes wholeNumber (.syslog none none) (.log (infoLog (ascii "a\nb"))) =
      .ok (ascii "<14>1 1970-01-01T00:00:00.000Z sonda sonda - - - a\nb\n") :=
    ok_of_toOption (by decide +kernel)
  have hinflux : encodedBytes wholeNumber (.influxLineProtocol none none) (.metric (upMetric (ascii "a\nb"))) =
      .ok (ascii "up,zone=a\nb value=1 0\n") :=
    ok_of_toOption (by decide +kernel)
  refine ⟨⟨_, ?_, rfl, ?_⟩, ⟨_, ?_, rfl, ?_⟩⟩
  · rw [encode, hsyslog]
    rfl
  · rw [encodedBytes_isLine_iff hsyslog]
    intro hsafe
    exact hsafe.2.2.1 (show newline ∈ ascii "a\nb" by decide)
  · rfl
  · rw [encodedBytes_isLine_iff hinflux]
    intro hsafe
    exact hsafe.2 _ (mem_singleton_self _) (show newline ∈ ascii "a\nb" by decide)

/-- Two log events are read back from their lines. -/
theorem encode_isLine_logs :
    ∃ out lines, encodeAll wholeNumber (.syslog none none)
        [.log (infoLog (ascii "a")), .log (infoLog (ascii "b"))] [] =
        .ok out ∧
      List.Forall₂ (LineOf wholeNumber (.syslog none none))
        [.log (infoLog (ascii "a")), .log (infoLog (ascii "b"))] lines ∧
      out.splitOn newline = lines ++ [[]] := by
  have hout : encodeAll wholeNumber (.syslog none none)
      [.log (infoLog (ascii "a")), .log (infoLog (ascii "b"))] [] =
      .ok (ascii ("<14>1 1970-01-01T00:00:00.000Z sonda sonda - - - a\n" ++
        "<14>1 1970-01-01T00:00:00.000Z sonda sonda - - - b\n")) :=
    ok_of_toOption (by decide)
  have hnone : ∀ label ∈ noLabels.entries, newline ∉ label.2 := by
    intro label hlabel
    cases hlabel
  obtain ⟨lines, hlines, hsplit⟩ := (encode_isLine_iff wholeNumber (.syslog none none)).2 _ _ hout (by
    intro event hevent
    simp only [mem_cons, not_mem_nil, or_false] at hevent
    rcases hevent with rfl | rfl
    · exact ⟨by decide, by decide, by show newline ∉ ascii "a"; decide, hnone⟩
    · exact ⟨by decide, by decide, by show newline ∉ ascii "b"; decide, hnone⟩)
  exact ⟨_, lines, hout, hlines, hsplit⟩

end Sonda.Encoder
