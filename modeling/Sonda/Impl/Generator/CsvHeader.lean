import Mathlib.Data.List.AList
import Mathlib.Data.List.DropRight
import Sonda.Impl.Schedule.ScheduleLoop

/-!
# CSV headers

`sonda-core/src/generator/csv_header.rs`: the parser of a column header, the guess
whether a line is a header, and the split of a header line. A text is the list of its
characters. A `HashMap` is an `AList`.
-/

namespace Sonda.Csv

open Sonda.Schedule (SondaError)

/-! ## Texts -/

abbrev Chars := List Char

/-- The characters that `char::is_whitespace` holds of. -/
def isWhitespace (c : Char) : Bool :=
  (0x09 ≤ c.toNat && c.toNat ≤ 0x0d) || (0x2000 ≤ c.toNat && c.toNat ≤ 0x200a) ||
    [0x20, 0x85, 0xa0, 0x1680, 0x2028, 0x2029, 0x202f, 0x205f, 0x3000].contains c.toNat

def trimStart (s : Chars) : Chars := s.dropWhile isWhitespace

def trim (s : Chars) : Chars := (trimStart s).rdropWhile isWhitespace

/-- How the standard library shows a text, and reads a number of the type `F`. -/
structure StdText (F : Type) where
  quote : Chars → String
  parseF64 : Chars → Option F
  /-- There is no number in an empty text. -/
  empty : parseF64 [] = none
  nan : F

variable {F : Type}

/-! ## Label blocks -/

abbrev LabelMap := AList fun _ : Chars => Chars

/-- A quoted value from behind its opening quote on, with what is behind it. -/
def parseQuotedValue (value : Chars) : Chars → Except SondaError (Chars × Chars)
  | [] => .error (.config "csv_header: unterminated quoted value")
  | '\\' :: ch :: rest => parseQuotedValue (value ++ [ch]) rest
  | ['\\'] => .error (.config "csv_header: unterminated escape in quoted value")
  | '"' :: rest => .ok (value, rest)
  | ch :: rest => parseQuotedValue (value ++ [ch]) rest

/-- A value up to a comma, or to the end. -/
def parseUnquotedValue (input : Chars) : Except SondaError (Chars × Chars) :=
  .ok (trim (input.takeWhile (· ≠ ',')), input.dropWhile (· ≠ ','))

def parseValue (input : Chars) : Except SondaError (Chars × Chars) :=
  match input with
  | '"' :: stripped => parseQuotedValue [] stripped
  | _ => parseUnquotedValue input

/-- The rest after a value, without the comma that separates it. -/
def afterValue (rest : Chars) : Chars :=
  match trimStart rest with
  | ',' :: rest => trimStart rest
  | rest => rest

/-- The loop over the pairs. Every pair takes a character at least, so the length of the
text is enough fuel. -/
def parsePairs (std : StdText F) :
    (fuel : Nat) → (remaining : Chars) → LabelMap → Except SondaError LabelMap
  | 0, _, labels => .ok labels
  | fuel + 1, remaining, labels =>
    if remaining.isEmpty then .ok labels
    else if !remaining.contains '=' then
      .error (.config ("csv_header: expected '=' in label pair, got: " ++ std.quote remaining))
    else
      let key := trim (remaining.takeWhile (· ≠ '='))
      if key.isEmpty then .error (.config "csv_header: empty label key")
      else do
        let (value, rest) ← parseValue (trimStart ((remaining.dropWhile (· ≠ '=')).drop 1))
        parsePairs std fuel (afterValue rest) (labels.insert key value)

variable (std : StdText F)

def parseLabelPairs (inner : Chars) : Except SondaError LabelMap :=
  parsePairs std (trim inner).length (trim inner) ∅

def parseLabelBlock (block : Chars) : Except SondaError LabelMap :=
  let block := trim block
  if block.head? ≠ some '{' then .error (.config "csv_header: label block must start with '\x7b'")
  else if !block.contains '}' then
    .error (.config "csv_header: unmatched '\x7b' — missing closing '\x7d'")
  else
    -- What is between the first brace and the last closing one.
    let inner := trim ((block.rdropWhile (· ≠ '}')).dropLast.drop 1)
    if inner.isEmpty then .ok ∅ else parseLabelPairs std inner

/-! ## Column headers -/

structure ParsedColumnHeader where
  metricName : Option Chars
  labels : LabelMap

/-- `__name__`. -/
def nameKey : Chars := ['_', '_', 'n', 'a', 'm', 'e', '_', '_']

def parseColumnHeader (header : Chars) : Except SondaError ParsedColumnHeader :=
  let header := trim header
  if header.isEmpty then .ok ⟨none, ∅⟩
  else if !header.contains '{' then .ok ⟨some header, ∅⟩
  else if header.head? = some '{' then do
    let labels ← parseLabelBlock std header
    .ok ⟨labels.lookup nameKey, labels.erase nameKey⟩
  else do
    let labels ← parseLabelBlock std (header.dropWhile (· ≠ '{'))
    .ok ⟨some (trim (header.takeWhile (· ≠ '{'))), labels⟩

/-! ## Header lines -/

def notNumeric (field : Chars) : Bool := (std.parseF64 (trim field)).isNone

def isHeaderLine (line : Chars) : Bool :=
  match line.splitOn ',' with
  | [] => false
  | [field] => notNumeric std field
  | _ :: fields => fields.any (notNumeric std)

/-- The loop over the characters: whether it is in quotes, and the field it reads. -/
def splitFields : (inQuotes : Bool) → (current : Chars) → Chars → List Chars
  | _, current, [] => [current]
  | true, current, '"' :: '"' :: rest => splitFields true (current ++ ['"']) rest
  | true, current, '"' :: rest => splitFields false current rest
  | true, current, ch :: rest => splitFields true (current ++ [ch]) rest
  | false, current, ',' :: rest => current :: splitFields false [] rest
  | false, current, '"' :: rest => splitFields true current rest
  | false, current, ch :: rest => splitFields false (current ++ [ch]) rest

def splitCsvHeaderFields (line : Chars) : List Chars := splitFields false [] line

def parseHeaderRow (line : Chars) : Except SondaError (List ParsedColumnHeader) :=
  (splitCsvHeaderFields line).mapM (parseColumnHeader std)

end Sonda.Csv
