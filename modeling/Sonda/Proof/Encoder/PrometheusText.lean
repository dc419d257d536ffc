import Sonda.Proof.Encoder.OneLine

/-!
# Reading a Prometheus line back

`readSeries` reads the name and the labels of a line by the grammar of the text format: blanks
may stand between the tokens, and a label value ends at the first quote without a backslash.
`readSeries_prometheusMetric` reads back what the encoder wrote.
-/

namespace Sonda.Encoder

open List Option

open Framework (decimal isDigit isDigit_of_mem_decimal bind_ok takeWhile_run)
open Config (Text isValidLabelKey)

variable {rest : Text} {label : Text × Text} {byte : UInt8}

/-! ## The grammar -/

def isBlank (byte : UInt8) : Bool := byte == 0x20 || byte == 0x09

def skipBlanks (text : Text) : Text := text.dropWhile isBlank

/-- A label value up to its quote, and what follows. -/
def readValue : Text → Option (Text × Text)
  | [] => none
  | byte :: rest =>
    if byte = 0x22 then some ([], rest)
    else if byte = newline then none
    else if byte = 0x5c then
      match rest with
      | [] => none
      | code :: rest =>
        if code = 0x5c ∨ code = 0x22 then (readValue rest).map fun r => (code :: r.1, r.2)
        else if code = 0x6e then (readValue rest).map fun r => (newline :: r.1, r.2)
        else none
    else (readValue rest).map fun r => (byte :: r.1, r.2)

/-- One token, with blanks before it. -/
def expectByte (byte : UInt8) (text : Text) : Option Text :=
  match skipBlanks text with
  | [] => none
  | first :: rest => if first = byte then some rest else none

/-- One label, and what follows. -/
def readLabel (text : Text) : Option ((Text × Text) × Text) :=
  let start := skipBlanks text
  let key := start.takeWhile isKeyByte
  if isValidLabelKey key then do
    let afterEquals ← expectByte 0x3d (start.dropWhile isKeyByte)
    let afterQuote ← expectByte 0x22 afterEquals
    let (value, rest) ← readValue afterQuote
    some ((key, value), rest)
  else none

/-- Labels up to the brace, with a comma between two and perhaps behind the last. -/
def readLabels : Nat → Text → Option (List (Text × Text) × Text)
  | 0, _ => none
  | fuel + 1, text =>
    match expectByte 0x7d text with
    | some rest => some ([], rest)
    | none => do
      let (label, rest) ← readLabel text
      match expectByte 0x2c rest with
      | some more =>
        let (labels, rest) ← readLabels fuel more
        some (label :: labels, rest)
      | none =>
        let rest ← expectByte 0x7d rest
        some ([label], rest)

/-- The name and the labels of a line, and what follows them. -/
def readSeries (line : Text) : Option (Text × List (Text × Text) × Text) :=
  let start := skipBlanks line
  let name := start.takeWhile isNameByte
  let rest := start.dropWhile isNameByte
  if isValidMetricName name then
    match expectByte 0x7b rest with
    | none => some (name, [], rest)
    | some body => (readLabels (body.length + 1) body).map fun r => (name, r.1, r.2)
  else none

/-! ## Tokens -/

theorem skipBlanks_cons (h : isBlank byte = false) (rest : Text) :
    skipBlanks (byte :: rest) = byte :: rest :=
  dropWhile_cons_of_neg (by simp [h])

theorem expectByte_self (h : isBlank byte = false) (rest : Text) :
    expectByte byte (byte :: rest) = some rest := by
  rw [expectByte, skipBlanks_cons h]
  exact if_pos rfl

theorem expectByte_cons_of_ne {first : UInt8} (h : isBlank first = false) (hne : first ≠ byte)
    (rest : Text) : expectByte byte (first :: rest) = none := by
  rw [expectByte, skipBlanks_cons h]
  exact if_neg hne

/-- A byte of a kind that has no blanks is no blank. -/
theorem not_isBlank {p : UInt8 → Bool} (hspace : p 0x20 = false) (htab : p 0x09 = false)
    (h : p byte = true) : isBlank byte = false := by
  rw [Bool.eq_false_iff]
  intro hblank
  simp only [isBlank, Bool.or_eq_true, beq_iff_eq] at hblank
  rcases hblank with rfl | rfl
  · rw [hspace] at h
    cases h
  · rw [htab] at h
    cases h

theorem not_isBlank_of_isNameByte (h : isNameByte byte = true) : isBlank byte = false :=
  not_isBlank (by decide) (by decide) h

/-! ## Names and keys -/

/-- No blank stands before a text that is not empty and is made of name bytes. -/
theorem skipBlanks_run {run : Text} (hne : run ≠ []) (hrun : ∀ byte ∈ run, isNameByte byte = true) (rest : Text) :
    skipBlanks (run ++ rest) = run ++ rest := by
  obtain ⟨first, tail, rfl⟩ := exists_cons_of_ne_nil hne
  exact skipBlanks_cons (not_isBlank_of_isNameByte (hrun first mem_cons_self)) (tail ++ rest)

theorem ne_nil_of_validKey {key : Text} (valid : isValidLabelKey key = true) : key ≠ [] := by
  rintro rfl
  cases valid

theorem ne_nil_of_validName {name : Text} (valid : isValidMetricName name = true) : name ≠ [] := by
  rintro rfl
  cases valid

/-! ## Labels -/

/-- The escape of one byte in front of a text is read as this byte. -/
theorem readValue_escapeLabelValue (value rest : Text) :
    readValue (escapeLabelValue value ++ 0x22 :: rest) = some (value, rest) := by
  induction value with
  | nil =>
    rw [readValue.eq_def]
    rfl
  | cons byte value ih =>
    have hcons : escapeLabelValue (byte :: value) ++ 0x22 :: rest =
        escapeLabelValue [byte] ++ (escapeLabelValue value ++ 0x22 :: rest) := by
      simp only [escapeLabelValue, flatMap_cons, flatMap_nil, append_nil, append_assoc]
    rw [hcons]
    by_cases hback : byte = 0x5c
    · subst hback
      show (readValue (escapeLabelValue value ++ 0x22 :: rest)).map _ = _
      rw [ih]
      rfl
    by_cases hquote : byte = 0x22
    · subst hquote
      show (readValue (escapeLabelValue value ++ 0x22 :: rest)).map _ = _
      rw [ih]
      rfl
    by_cases hline : byte = newline
    · subst hline
      show (readValue (escapeLabelValue value ++ 0x22 :: rest)).map _ = _
      rw [ih]
      rfl
    · have hbyte : escapeLabelValue [byte] = [byte] := by
        simp [escapeLabelValue, hback, hquote, hline]
      rw [hbyte, singleton_append, readValue.eq_def]
      simp only [hquote, hline, hback, if_false, ih, map_some]

theorem readLabel_labelText (valid : isValidLabelKey label.1 = true) (rest : Text) :
    readLabel (labelText label ++ rest) = some (label, rest) := by
  have hkey := isKeyByte_of_valid valid
  have htext : labelText label ++ rest =
      label.1 ++ 0x3d :: 0x22 :: (escapeLabelValue label.2 ++ 0x22 :: rest) := by
    simp [labelText]
  have hstart := skipBlanks_run (ne_nil_of_validKey valid)
    (isNameByte_of_key valid)
  obtain ⟨htake, hdrop⟩ := takeWhile_run hkey (c := 0x3d) (by decide)
    (0x22 :: (escapeLabelValue label.2 ++ 0x22 :: rest))
  unfold readLabel
  simp only [htext, hstart, htake, hdrop, if_pos valid, expectByte_self (show isBlank 0x3d = false by decide),
    expectByte_self (show isBlank 0x22 = false by decide), readValue_escapeLabelValue, bind_eq_bind,
    bind_some]

/-- A label starts with no brace. -/
theorem expectByte_labelText (valid : isValidLabelKey label.1 = true) (rest : Text) :
    expectByte 0x7d (labelText label ++ rest) = none := by
  obtain ⟨first, tail, hkey⟩ := exists_cons_of_ne_nil (ne_nil_of_validKey valid)
  have hfirst := isNameByte_of_key valid first (hkey ▸ mem_cons_self)
  have htext : labelText label ++ rest =
      first :: (tail ++ [0x3d, 0x22] ++ escapeLabelValue label.2 ++ [0x22] ++ rest) := by
    simp [labelText, hkey]
  rw [htext]
  apply expectByte_cons_of_ne (not_isBlank_of_isNameByte hfirst)
  rintro rfl
  exact absurd hfirst (by decide)

theorem readLabels_entries {labels : List (Text × Text)} (hne : labels ≠ [])
    (valid : ∀ label ∈ labels, isValidLabelKey label.1 = true) {fuel : Nat} (hfuel : labels.length ≤ fuel)
    (rest : Text) :
    readLabels fuel ([0x2c].intercalate (labels.map labelText) ++ 0x7d :: rest) = some (labels, rest) := by
  -- One unit of fuel is spent on each label, and the brace is read with the last.
  induction labels generalizing fuel with
  | nil => exact absurd rfl hne
  | cons label labels ih =>
    obtain ⟨hlabel, hlabels⟩ := forall_mem_cons.1 valid
    obtain ⟨fuel, rfl⟩ := Nat.exists_eq_add_one_of_ne_zero (Nat.ne_of_gt (Nat.lt_of_lt_of_le (by simp) hfuel))
    cases labels with
    | nil =>
      rw [map_singleton, intercalate_singleton, readLabels]
      simp only [expectByte_labelText hlabel, readLabel_labelText hlabel,
        expectByte_cons_of_ne (show isBlank 0x7d = false by decide) (show (0x7d : UInt8) ≠ 0x2c by decide),
        expectByte_self (show isBlank 0x7d = false by decide), bind_eq_bind, bind_some]
    | cons label' labels =>
      have hmore := ih (cons_ne_nil _ _) hlabels (Nat.le_of_succ_le_succ hfuel)
      have htext : [0x2c].intercalate ((label :: label' :: labels).map labelText) ++ 0x7d :: rest =
          labelText label ++ 0x2c :: ([0x2c].intercalate ((label' :: labels).map labelText) ++ 0x7d :: rest) := by
        simp
      rw [htext, readLabels]
      simp only [expectByte_labelText hlabel, readLabel_labelText hlabel,
        expectByte_self (show isBlank 0x2c = false by decide), bind_eq_bind, bind_some, hmore]

/-! ## Series -/

/-- The name and the labels of an event, as its line starts. -/
def seriesText {F : Type} (event : MetricEvent F) : Text := event.name.name ++ labelBlock event.labels

theorem length_le_intercalate (labels : List (Text × Text)) :
    labels.length ≤ ([0x2c].intercalate (labels.map labelText)).length := by
  induction labels with
  | nil => simp
  | cons label labels ih =>
    have hlabel : 0 < (labelText label).length := by simp [labelText]
    cases labels with
    | nil =>
      rw [map_singleton, intercalate_singleton]
      exact hlabel
    | cons label' labels =>
      rw [map_cons] at ih
      rw [map_cons, map_cons, intercalate_cons_cons]
      simp only [length_append, length_cons, length_nil] at ih ⊢
      omega

variable {F : Type}

/-- What follows the series is a blank and then no brace. -/
theorem readSeries_seriesText (event : MetricEvent F)
    (hrest : expectByte 0x7b (0x20 :: rest) = none) :
    readSeries (seriesText event ++ 0x20 :: rest) = some (event.name.name, event.labels.entries, 0x20 :: rest) := by
  have valid := event.name.valid
  have hname := isNameByte_of_valid valid
  have hstart := skipBlanks_run (ne_nil_of_validName valid) hname
  unfold seriesText labelBlock
  split
  · rename_i hempty
    obtain ⟨htake, hdrop⟩ := takeWhile_run hname (c := 0x20) (by decide) rest
    rw [append_nil, isEmpty_iff.1 hempty]
    unfold readSeries
    simp only [hstart, htake, hdrop, if_pos valid, hrest]
  · rename_i hsome
    have hne : event.labels.entries ≠ [] := fun h => hsome (isEmpty_iff.2 h)
    have htext : event.name.name ++ ([0x7b] ++ [0x2c].intercalate (event.labels.entries.map labelText) ++ [0x7d]) ++
        0x20 :: rest = event.name.name ++ 0x7b ::
          ([0x2c].intercalate (event.labels.entries.map labelText) ++ 0x7d :: 0x20 :: rest) := by
      simp
    obtain ⟨htake, hdrop⟩ := takeWhile_run hname (c := 0x7b) (by decide)
      ([0x2c].intercalate (event.labels.entries.map labelText) ++ 0x7d :: 0x20 :: rest)
    have hfuel : event.labels.entries.length ≤
        ([0x2c].intercalate (event.labels.entries.map labelText) ++ 0x7d :: 0x20 :: rest).length + 1 := by
      have := length_le_intercalate event.labels.entries
      rw [length_append]
      omega
    have hlabels := readLabels_entries hne event.labels.valid hfuel (0x20 :: rest)
    rw [htext]
    unfold readSeries
    simp only [hstart, htake, hdrop, if_pos valid, expectByte_self (show isBlank 0x7b = false by decide), hlabels,
      map_some]

/-- Blanks, a number and what is no brace behind it start with no brace. -/
theorem expectByte_writeValue (std : StdNumber F) (value : F) (precision : Option UInt8)
    (hrest : expectByte 0x7b rest = none) :
    expectByte 0x7b (0x20 :: (writeValue std value precision ++ rest)) = none := by
  show expectByte 0x7b (writeValue std value precision ++ rest) = none
  cases hvalue : writeValue std value precision with
  | nil => exact hrest
  | cons first tail =>
    have hmem : first ∈ writeValue std value precision := hvalue ▸ mem_cons_self
    have hfirst : isNumberByte first = true := std.display_bytes value precision first hmem
    apply expectByte_cons_of_ne
    · exact not_isBlank (by decide) (by decide) hfirst
    · rintro rfl
      exact absurd hfirst (by decide)

theorem expectByte_decimal (n : Nat) (rest : Text) : expectByte 0x7b (0x20 :: (decimal n ++ rest)) = none := by
  obtain ⟨first, tail, hn⟩ := exists_cons_of_ne_nil (Framework.decimal_ne_nil n)
  have hfirst : isDigit first = true := isDigit_of_mem_decimal (n := n) (hn ▸ mem_cons_self)
  rw [hn]
  show expectByte 0x7b (first :: (tail ++ rest)) = none
  apply expectByte_cons_of_ne
  · exact not_isBlank_of_isNameByte (by simp [isNameByte, isKeyByte, hfirst])
  · rintro rfl
    exact absurd hfirst (by decide)

/-- A line is its series, a blank, and a rest that starts with no brace. -/
theorem prometheusMetric_ok {std : StdNumber F} {precision : Option UInt8} {emitTimestamp : Bool}
    {event : MetricEvent F} {line : Text} (h : prometheusMetric std precision emitTimestamp event = .ok line) :
    ∃ rest, line = seriesText event ++ 0x20 :: rest ∧ expectByte 0x7b (0x20 :: rest) = none := by
  unfold prometheusMetric at h
  split at h
  · obtain ⟨timestamp, -, h⟩ := bind_ok h
    rw [← Except.ok.inj h]
    refine ⟨writeValue std event.value precision ++
      0x20 :: (decimal (timestamp / 1000000) ++ [newline]), ?_, ?_⟩
    · simp [seriesText]
    · exact expectByte_writeValue std _ _ (expectByte_decimal _ _)
  · rw [← Except.ok.inj h]
    refine ⟨writeValue std event.value precision ++ [newline], ?_, ?_⟩
    · simp [seriesText]
    · exact expectByte_writeValue std _ _ (by decide)

/-- Every line is read back as the name and the labels of its event, so that events of the same
text before the value have the same name and the same labels. -/
theorem readSeries_prometheusMetric (std : StdNumber F) (precision : Option UInt8) (emitTimestamp : Bool) :
    (∀ (event : MetricEvent F) (line : Text), prometheusMetric std precision emitTimestamp event = .ok line →
      ∃ rest, line = seriesText event ++ 0x20 :: rest ∧
        readSeries line = some (event.name.name, event.labels.entries, 0x20 :: rest)) ∧
    ∀ a b : MetricEvent F, seriesText a = seriesText b →
      a.name.name = b.name.name ∧ a.labels.entries = b.labels.entries := by
  refine ⟨fun event line h => ?_, fun a b h => ?_⟩
  · obtain ⟨rest, rfl, hrest⟩ := prometheusMetric_ok h
    exact ⟨rest, rfl, readSeries_seriesText event hrest⟩
  · have hnone : expectByte 0x7b (0x20 :: []) = none := by decide
    have ha := readSeries_seriesText a hnone
    rw [h, readSeries_seriesText b hnone] at ha
    simp only [some.injEq, Prod.mk.injEq, and_true] at ha
    exact ⟨ha.1.symm, ha.2.symm⟩

/-- Quotes, commas, braces, backslashes and a newline in the values. -/
def quotedEntries : List (Text × Text) := [(ascii "a", ascii "\\\"\x7d,"), (ascii "b", ascii "\n")]

theorem quotedEntries_ordered : quotedEntries.Pairwise fun a b => a.1 < b.1 := by decide

theorem quotedEntries_valid : ∀ entry ∈ quotedEntries, isValidLabelKey entry.1 = true := by decide

theorem isValidMetricName_up : isValidMetricName (ascii "up") = true := by decide

def quotedMetric : MetricEvent Nat where
  name := ⟨ascii "up", isValidMetricName_up⟩
  value := 1
  labels := ⟨quotedEntries, quotedEntries_ordered, quotedEntries_valid⟩
  timestamp := 0

theorem readSeries_quoted :
    ∃ line rest, prometheusMetric wholeNumber none false quotedMetric = .ok line ∧
      line = ascii "up\x7ba=\"\\\\\\\"\x7d,\",b=\"\\n\"\x7d 1\n" ∧
      readSeries line = some (ascii "up", quotedMetric.labels.entries, 0x20 :: rest) := by
  have hline : prometheusMetric wholeNumber none false quotedMetric =
      .ok (ascii "up\x7ba=\"\\\\\\\"\x7d,\",b=\"\\n\"\x7d 1\n") :=
    Framework.ok_of_toOption (by decide +kernel)
  obtain ⟨rest, -, hread⟩ := (readSeries_prometheusMetric wholeNumber none false).1 quotedMetric _ hline
  exact ⟨_, rest, hline, rfl, hread⟩

end Sonda.Encoder
