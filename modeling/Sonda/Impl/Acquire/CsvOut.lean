import Sonda.Impl.Config.Durations
import Sonda.Impl.Generator.CsvReplay

/-!
# Captures as CSV

`sonda-core/src/acquire/csv_out.rs`, with the grid and the series of `normalize.rs`: the
column headers and the text of a capture, and the gap windows of one of its columns. A
`BTreeMap` of labels is the list of its entries.
-/

namespace Sonda.Csv

open Config (StdParse Text textString parseDuration parseOffsetDuration asSecs)
open Sonda.Schedule (SondaError)

variable {F : Type}

/-! ## Column headers -/

/-- The labels of a series, in the order of their keys. -/
structure LabelSet where
  entries : List (Chars × Chars)
  ordered : entries.Pairwise fun a b => a.1 < b.1

def LabelSet.get (labels : LabelSet) (key : Chars) : Option Chars :=
  (labels.entries.find? (·.1 = key)).map Prod.snd

def escapeLabelValue (value : Chars) : Chars :=
  value.flatMap fun ch => if ch = '\\' ∨ ch = '"' then ['\\', ch] else [ch]

def csvQuoteField (field : Chars) : Chars :=
  '"' :: (field.flatMap fun ch => if ch = '"' then ['"', ch] else [ch]) ++ ['"']

def hasNewline (s : Chars) : Bool := s.contains '\n' || s.contains '\r'

def newlineInLabel (std : StdText F) (what : String) (s k : Chars) : SondaError :=
  .config (s!"csv capture: label {what} " ++ std.quote s ++ " (of label " ++ std.quote k ++
    ") contains a newline, " ++
    "which a CSV column header cannot represent. Drop or rewrite the label " ++
    "with a PromQL `label_replace` before capturing.")

def equalsInKey (std : StdText F) (k : Chars) : SondaError :=
  .config ("csv capture: label key " ++ std.quote k ++ " contains '=', which is the delimiter this " ++
    "column-header grammar uses to separate a label key from its value. A key " ++
    "containing it would be read back as a different label. Drop or rewrite the " ++
    "label with a PromQL `label_replace` before capturing.")

def checkLabel (std : StdText F) (label : Chars × Chars) : Except SondaError Unit :=
  if hasNewline label.1 then .error (newlineInLabel std "key" label.1 label.1)
  else if hasNewline label.2 then .error (newlineInLabel std "value" label.2 label.1)
  else if label.1.contains '=' then .error (equalsInKey std label.1)
  else .ok ()

def pairText (label : Chars × Chars) : Chars :=
  label.1 ++ '=' :: '"' :: (escapeLabelValue label.2 ++ ['"'])

/-- The entries with the name first. -/
def headerEntries (labels : LabelSet) : List (Chars × Chars) :=
  ((labels.get nameKey).toList.map fun name => (nameKey, name)) ++
    labels.entries.filter (·.1 ≠ nameKey)

def columnHeader (std : StdText F) (labels : LabelSet) : Except SondaError Chars := do
  labels.entries.forM (checkLabel std)
  .ok ('{' :: ([',', ' '].intercalate ((headerEntries labels).map pairText) ++ ['}']))

/-! ## The text of a capture -/

/-- The instants of a capture. -/
structure Grid where
  start : ℚ
  step : ℚ
  len : Nat

def Grid.point (grid : Grid) (n : Nat) : ℚ := grid.start + n * grid.step

/-- A series on the grid: no value is no sample. -/
structure NormalizedSeries (F : Type) where
  labels : LabelSet
  values : List (Option F)

/-- A text without white space, commas and quotes that is no comment. -/
structure Plain (s : Chars) : Prop where
  nonempty : s ≠ []
  noSpace : ∀ c ∈ s, isWhitespace c = false
  noDelimiter : ∀ c ∈ s, c ≠ ',' ∧ c ≠ '"' ∧ c ≠ '#'

/-- How the standard library writes numbers. -/
structure StdWrite (F : Type) extends StdText F where
  showF64 : F → Chars
  /-- With three decimals. -/
  showMillis : ℚ → Chars
  showF64_plain : ∀ v, Plain (showF64 v)
  showMillis_plain : ∀ instant, Plain (showMillis instant)
  /-- A number that is written is read back. -/
  parse_showF64 : ∀ v, parseF64 (showF64 v) = some v
  parse_showMillis : ∀ instant, (parseF64 (showMillis instant)).isSome
  /-- No number starts with a quote. -/
  quoted : ∀ s, parseF64 ('"' :: s) = none

def formatTimestamp (std : StdWrite F) (instant : ℚ) : Chars := std.showMillis instant

/-- `timestamp`. -/
def timestampText : Chars := ['t', 'i', 'm', 'e', 's', 't', 'a', 'm', 'p']

def headerRow (std : StdText F) (sets : List LabelSet) : Except SondaError Chars := do
  let headers ← sets.mapM (columnHeader std)
  .ok (timestampText ++ headers.flatMap fun header => ',' :: csvQuoteField header)

def cellText (std : StdWrite F) (s : NormalizedSeries F) (n : Nat) : Chars :=
  match s.values[n]? with
  | some (some v) => std.showF64 v
  | _ => []

def dataRow (std : StdWrite F) (grid : Grid) (series : List (NormalizedSeries F)) (n : Nat) : Chars :=
  formatTimestamp std (grid.point n) ++ series.flatMap fun s => ',' :: cellText std s n

def writeCsv (std : StdWrite F) (grid : Grid) (series : List (NormalizedSeries F)) :
    Except SondaError Chars := do
  let header ← headerRow std.toStdText (series.map NormalizedSeries.labels)
  .ok (header ++ '\n' :: (List.range grid.len).flatMap fun n => dataRow std grid series n ++ ['\n'])

/-! ## Gap windows -/

/-- The field `for` is a word of the language. -/
structure GapWindowConfig where
  at_ : Text
  for_ : Text
  deriving DecidableEq

variable (std : StdParse) (window : GapWindowConfig)

def GapWindowConfig.resolve : Except SondaError (Nat × Nat) := do
  let offset ← parseOffsetDuration std window.at_
  let length ← parseDuration std window.for_
  .ok (offset, length)

/-- A number of seconds with its unit. -/
def secondsText (std : StdParse) (secs : ℚ) : Text := std.showF64 secs ++ [0x73]

/-- The window between the midpoints on both sides of the rows. -/
def windowFor (std : StdParse) (stepSecs : ℚ) (first last : Nat) : GapWindowConfig :=
  let atSecs : ℚ := if first = 0 then 0 else (first - 1 / 2) * stepSecs
  let endSecs : ℚ := (last + 1 / 2) * stepSecs
  ⟨secondsText std atSecs, secondsText std (endSecs - atSecs)⟩

def windowComplaint (first last : Nat) (stepSecs : ℚ) (row : Nat) (expected : Bool) : SondaError :=
  .config (s!"acquire: emitted gap window \x7bat: {textString window.at_}, for: {textString window.for_}\x7d " ++
    s!"for absent rows {first}..={last} " ++ (if expected then "does not cover" else "covers") ++
    s!" row {row} " ++
    s!"after round-tripping through duration parsing at a {textString (std.showF64 stepSecs)}s step. " ++
    "Durations resolve to whole microseconds, and this window's edges sit half a step " ++
    "from the rows either side, so a step below about 2us cannot be expressed. Capture " ++
    "at a coarser step.")

def windowSecs (resolved : Nat × Nat) : Window :=
  (asSecs resolved.1, asSecs resolved.1 + asSecs resolved.2)

def verifyWindow (first last rowCount : Nat) (stepSecs : ℚ) : Except SondaError Unit := do
  let resolved ← window.resolve std
  let pair := windowSecs resolved
  let complain := windowComplaint std window first last stepSecs
  if !tickInWindow first stepSecs pair then .error (complain first true)
  else if !tickInWindow last stepSecs pair then .error (complain last true)
  else if 0 < first && tickInWindow (first - 1) stepSecs pair then .error (complain (first - 1) false)
  else if last + 1 < rowCount && tickInWindow (last + 1) stepSecs pair then
    .error (complain (last + 1) false)
  else .ok ()

/-- The first row from `row` on that has a value, or the end. -/
def skipAbsent (values : List (Option F)) : (fuel row : Nat) → Nat
  | 0, row => row
  | fuel + 1, row =>
    match values[row]? with
    | some none => skipAbsent values fuel (row + 1)
    | _ => row

/-- The windows of the absent rows from `row` on. -/
def gapWindowsFrom (std : StdParse) (values : List (Option F)) (stepSecs : ℚ) :
    (fuel row : Nat) → Except SondaError (List GapWindowConfig)
  | 0, _ => .ok []
  | fuel + 1, row =>
    match values[row]? with
    | none => .ok []
    | some (some _) => gapWindowsFrom std values stepSecs fuel (row + 1)
    | some none => do
      let past := skipAbsent values values.length row
      let window := windowFor std stepSecs row (past - 1)
      verifyWindow std window row (past - 1) values.length stepSecs
      let windows ← gapWindowsFrom std values stepSecs fuel past
      .ok (window :: windows)

/-- Every turn gets to a later row, so the number of rows is enough fuel. -/
def gapWindowsFor (std : StdParse) (values : List (Option F)) (stepSecs : ℚ) :
    Except SondaError (List GapWindowConfig) :=
  gapWindowsFrom std values stepSecs (values.length + 1) 0

end Sonda.Csv
