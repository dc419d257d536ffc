import Mathlib.Data.List.Sort
import Mathlib.Data.Rat.Defs
import Sonda.Impl.Generator.CsvHeader

/-!
# Replay of a CSV column

`sonda-core/src/generator/csv_replay.rs`: the parser of one column with its blank rows,
and the check of the blank rows against the declared gap windows. Seconds are rationals.
-/

namespace Sonda.Csv

open Sonda.Schedule (SondaError)

variable {F : Type}

/-! ## Parsing a column -/

/-- `str::lines`: a carriage return goes only with a line feed behind it, and nothing is
behind the last line feed. -/
def lines (content : Chars) : List Chars :=
  let parts := content.splitOn '\n'
  let ended := parts.dropLast.map fun line =>
    if line.getLast? = some '\r' then line.dropLast else line
  ended ++ (parts.getLast?.toList.filter fun line => !line.isEmpty)

/-- The variables of the loop over the lines. -/
structure Reading (F : Type) where
  values : List F
  blanks : List Nat
  firstDataLine : Bool
  deriving DecidableEq

def missingColumn (lineNo columns column : Nat) : SondaError :=
  .config (s!"csv_replay: line {lineNo} has {columns} column(s), so column {column} is missing. " ++
    "Every data row must carry every column — a short row would otherwise drop a " ++
    "slot and shift the rest of the timeline earlier.")

variable (std : StdText F)

def notANumber (lineNo column : Nat) (cell : Chars) : SondaError :=
  .config (s!"csv_replay: line {lineNo}, column {column}: " ++ std.quote cell ++ " is not a number. " ++
    "Leave the cell empty to mark an absent sample (and declare the matching " ++
    "`gap_windows:` entry); anything else is a typo that would otherwise be " ++
    "dropped, shifting every later sample one step earlier.")

/-- The slot that a data row takes. -/
def readRow (column lineNo : Nat) (trimmed : Chars) (r : Reading F) : Except SondaError (Reading F) :=
  let fields := trimmed.splitOn ','
  match fields[column]? with
  | none => .error (missingColumn lineNo fields.length column)
  | some field =>
    let cell := trim field
    if cell.isEmpty then
      .ok { r with values := r.values ++ [std.nan], blanks := r.blanks ++ [r.values.length] }
    else
      match std.parseF64 cell with
      | none => .error (notANumber std lineNo column cell)
      | some parsed => .ok { r with values := r.values ++ [parsed] }

/-- One turn of the loop. -/
def readLine (column : Nat) (r : Reading F) (item : Chars × Nat) : Except SondaError (Reading F) :=
  let lineNo := item.2 + 1
  let trimmed := trim item.1
  if trimmed.isEmpty then .ok r
  else if trimmed.head? = some '#' then .ok r
  else if r.firstDataLine then
    let r := { r with firstDataLine := false }
    if isHeaderLine std trimmed then .ok r else readRow std column lineNo trimmed r
  else readRow std column lineNo trimmed r

def parseValuesAndGaps (content : Chars) (column : Nat) : Except SondaError (List F × List Nat) := do
  let r ← (lines content).zipIdx.foldlM (readLine std column) ⟨[], [], true⟩
  .ok (r.values, r.blanks)

def columnValuesAndGaps (content : Chars) (column : Nat) :
    Except SondaError (List F × List Nat) := parseValuesAndGaps std content column

/-! ## Gap windows -/

/-- How a scenario walks the rows of its capture. -/
structure Playback where
  rowCount : Nat
  repeats : Bool
  lastTick : Option Nat
  bursts : Bool

/-- The slot that `CsvReplayGenerator::value` plays at a tick. -/
def valueIndex (playback : Playback) (tick : Nat) : Nat :=
  if playback.repeats then tick % playback.rowCount else min tick (playback.rowCount - 1)

/-- A window from its start up to its end. -/
abbrev Window := ℚ × ℚ

def tickInWindow (t : Nat) (stepSecs : ℚ) (window : Window) : Bool :=
  window.1 ≤ t * stepSecs && t * stepSecs < window.2

/-- The search for the first tick past a window. The distance of the two ends is enough fuel. -/
def pastWindow (stepSecs : ℚ) (window : Window) : (fuel lo hi : Nat) → Nat
  | 0, _, hi => hi
  | fuel + 1, lo, hi =>
    if 1 < hi - lo then
      let mid := lo + (hi - lo) / 2
      if tickInWindow mid stepSecs window then pastWindow stepSecs window fuel mid hi
      else pastWindow stepSecs window fuel lo mid
    else hi

/-- The walk over the windows from the cursor on. -/
def walkWindows (stepSecs : ℚ) (last : Nat) : (cursor : Nat) → List Window → Option Nat
  | cursor, [] => if cursor ≤ last then some cursor else none
  | cursor, window :: windows =>
    if cursor * stepSecs < window.1 then some cursor
    else if tickInWindow cursor stepSecs window then
      if tickInWindow last stepSecs window then none
      else walkWindows stepSecs last (pastWindow stepSecs window (last - cursor) cursor last) windows
    else walkWindows stepSecs last cursor windows

/-- The start decides, and the sort is stable. -/
def startsBefore (a b : Window) : Prop := a.1 ≤ b.1

instance : DecidableRel startsBefore := fun a b => inferInstanceAs (Decidable (a.1 ≤ b.1))

/-- The first of the ticks from `start` up to `last` that no window has. -/
def firstUncoveredTick (start last : Nat) (windows : List Window) (stepSecs : ℚ) : Option Nat :=
  if last < start then none else walkWindows stepSecs last start (windows.insertionSort startsBefore)

/-- How many row numbers are named before the rest is counted. -/
def maxNamed : Nat := 8

def formatRows (rows : List Nat) : String :=
  let shown := ", ".intercalate ((rows.take maxNamed).map fun row => toString (row + 1))
  if maxNamed < rows.length then s!"{shown} … and {rows.length - maxNamed} more" else shown

inductive GapMismatch
  | repeats (blanks : List Nat)
  | bursts (blanks : List Nat)
  | uncovered (rows : List Nat)
  | silenced (rows : List Nat)
  | unbounded (lastRow : Nat)
  | held (lastRow first : Nat)
  deriving DecidableEq, Repr

def GapMismatch.message : GapMismatch → String
  | .repeats blanks =>
    s!"csv_replay: this capture contains {blanks.length} blank cell(s) and `repeat` is true. " ++
      "A capture containing silence cannot loop: `gap_windows:` describe one pass, " ++
      "so on the second cycle those rows would replay at instants no window covers " ++
      "and emit as NaN samples. Set `repeat: false`."
  | .bursts blanks =>
    s!"csv_replay: this capture contains {blanks.length} blank cell(s) and the scenario declares " ++
      "`bursts:`. A burst emits at `rate * multiplier` inside its window, which " ++
      "compresses the tick grid, so row n no longer plays at n x step and the " ++
      "`gap_windows:` entries would fall on the wrong rows. Remove `bursts:`, or " ++
      "replay a capture that contains no silence."
  | .uncovered rows =>
    s!"csv_replay: {rows.length} blank cell(s) are not covered by any `gap_windows:` entry " ++
      s!"(data row(s) {formatRows rows}). A blank cell means the sample was absent, which only " ++
      "reproduces as silence if the scenario declares the window — otherwise it " ++
      "would replay as a NaN sample, which is a present value. Add the window, or " ++
      "put the value back in the cell."
  | .silenced rows =>
    s!"csv_replay: {rows.length} recorded sample(s) fall inside a `gap_windows:` entry " ++
      s!"(data row(s) {formatRows rows}). The window would suppress data the capture actually has, " ++
      "inventing silence that did not happen. Narrow the window, or blank the cells " ++
      "it covers."
  | .unbounded lastRow =>
    s!"csv_replay: the capture's last row (data row {lastRow + 1}) is blank and the scenario " ++
      "has no `duration:`. With `repeat: false` the final slot is held for every " ++
      "later tick, so that silence would run forever and no `gap_windows:` entry " ++
      "can cover it. Set a `duration:` the windows reach, or put a value in the " ++
      "last row."
  | .held lastRow first =>
    s!"csv_replay: the capture's last row (data row {lastRow + 1}) is blank and the " ++
      "scenario outlives its data. With `repeat: false` that slot is held for " ++
      s!"every later tick, and the first such instant is tick {first}, which falls " ++
      "outside every `gap_windows:` entry, where the silence would emit as a " ++
      "NaN sample. " ++
      "Extend the window to the end of the run, shorten `duration:`, or put a " ++
      "value in the last row."

def GapMismatch.toError (e : GapMismatch) : SondaError := .config e.message

def covered (windows : List Window) (stepSecs : ℚ) (row : Nat) : Bool :=
  windows.any (tickInWindow row stepSecs)

def uncoveredBlanks (blanks : List Nat) (windows : List Window) (stepSecs : ℚ) : List Nat :=
  blanks.filter fun row => !covered windows stepSecs row

def presentButSilenced (blanks : List Nat) (rowCount : Nat) (windows : List Window) (stepSecs : ℚ) :
    List Nat :=
  (List.range rowCount).filter fun row => covered windows stepSecs row && !blanks.contains row

/-- The check of the ticks past the last row, which is `lastRow`. -/
def checkHeld (lastRow : Nat) (lastTick : Option Nat) (windows : List Window) (stepSecs : ℚ) :
    Except GapMismatch Unit :=
  match lastTick with
  | none => .error (.unbounded lastRow)
  | some lastTick =>
    match firstUncoveredTick (lastRow + 1) lastTick windows stepSecs with
    | some first => .error (.held lastRow first)
    | none => .ok ()

variable (blanks : List Nat) (playback : Playback) (windows : List Window) (stepSecs : ℚ)

/-- The slot past the rows is held. -/
def checkLastRow : Except GapMismatch Unit :=
  match playback.rowCount with
  | 0 => .ok ()
  | lastRow + 1 =>
    if blanks.contains lastRow then checkHeld lastRow playback.lastTick windows stepSecs else .ok ()

/-- The check, up to the text of its error. -/
def checkGapWindows : Except GapMismatch Unit :=
  let uncovered := uncoveredBlanks blanks windows stepSecs
  let silenced := presentButSilenced blanks playback.rowCount windows stepSecs
  if playback.repeats && !blanks.isEmpty then .error (.repeats blanks)
  else if playback.bursts && !blanks.isEmpty then .error (.bursts blanks)
  else if !uncovered.isEmpty then .error (.uncovered uncovered)
  else if !silenced.isEmpty then .error (.silenced silenced)
  else checkLastRow blanks playback windows stepSecs

def crossCheckGapWindows : Except SondaError Unit :=
  (checkGapWindows blanks playback windows stepSecs).mapError GapMismatch.toError

end Sonda.Csv
