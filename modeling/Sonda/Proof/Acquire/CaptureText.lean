import Sonda.Proof.Acquire.CaptureWindows
import Sonda.Proof.Acquire.HeaderRoundTrip
import Sonda.Proof.Config.Durations
import Sonda.Framework.Lines

/-!
# The text of a capture, read back

The lines of a written capture are its header and its rows (`lines_writeCsv`), the header
is one for the reader (`isHeaderLine_headerRow`), and the cells of a row are the timestamp
and the samples (`cells_dataRow`). Every column comes back with its absent rows
(`columnValuesAndGaps_writeCsv`).
-/

namespace Sonda.Csv

open Framework List
open Config (StdParse)
open Sonda.Schedule (SondaError)

variable {F : Type} {c : Char} {s : Chars} {ls : List Chars}

/-! ## Lines -/

/-- No character ends a line. -/
def NoBreak (s : Chars) : Prop := ∀ c ∈ s, c ≠ '\n' ∧ c ≠ '\r'

theorem NoBreak.append {t : Chars} (hs : NoBreak s) (ht : NoBreak t) : NoBreak (s ++ t) := by
  intro c hc
  rcases mem_append.1 hc with hc | hc
  · exact hs c hc
  · exact ht c hc

theorem NoBreak.cons (hc : c ≠ '\n' ∧ c ≠ '\r') (hs : NoBreak s) : NoBreak (c :: s) :=
  forall_mem_cons.2 ⟨hc, hs⟩

theorem noBreak_nil : NoBreak [] := fun _ hc => absurd hc not_mem_nil

theorem NoBreak.flatMap {α : Type} {l : List α} {f : α → Chars} (h : ∀ a ∈ l, NoBreak (f a)) :
    NoBreak (l.flatMap f) := by
  intro c hc
  obtain ⟨a, ha, hc⟩ := mem_flatMap.1 hc
  exact h a ha c hc

/-- A text of ended lines has these lines. -/
theorem lines_ended (h : ∀ line ∈ ls, NoBreak line) :
    lines (ls.flatMap fun line => line ++ ['\n']) = ls := by
  have hkeep : ∀ line ∈ ls, (if line.getLast? = some '\r' then line.dropLast else line) = line := by
    intro line hline
    refine if_neg fun hlast => ?_
    exact (h line hline '\r' (mem_of_getLast? hlast)).2 rfl
  unfold lines
  dsimp only
  have hmark : ∀ line ∈ ls, '\n' ∉ line := fun line hline hmem => (h line hline '\n' hmem).1 rfl
  rw [Framework.splitOn_ended hmark, dropLast_concat, getLast?_concat]
  show ls.map _ ++ [] = ls
  rw [append_nil, map_congr_left hkeep, map_id']

/-- The first part of a text that starts with no separator starts as the text does. -/
theorem splitOn_cons {s : Char} (h : c ≠ s) (text : Chars) :
    ∃ rest fields, (c :: text).splitOn s = (c :: rest) :: fields := by
  obtain ⟨first, fields, hsplit⟩ := exists_cons_of_ne_nil (splitOn_ne_nil s text)
  refine ⟨first, fields, ?_⟩
  unfold splitOn at hsplit ⊢
  rw [splitOnP_cons_eq_if_modifyHead, if_neg (by rwa [beq_iff_eq]), hsplit]
  rfl

/-- Lines that are neither blank nor comments, and trimmed. -/
theorem dataLines_eq_self (h : ∀ line ∈ ls, trim line = line ∧ line ≠ [] ∧ line.head? ≠ some '#') :
    dataLines ls = ls := by
  unfold dataLines
  rw [map_congr_left fun line hline => (h line hline).1, map_id', filter_eq_self]
  intro line hline
  rw [decide_eq_true (h line hline).2.2, Bool.and_true, Bool.not_eq_true', isEmpty_eq_false_iff]
  exact (h line hline).2.1

/-! ## The header -/

section
variable {std : StdText F}
variable {sets : List LabelSet} {row : Chars}

theorem noBreak_of_hasNewline {s : Chars} (h : ¬ hasNewline s = true) : NoBreak s := by
  unfold hasNewline at h
  rw [Bool.or_eq_true, not_or, contains_eq_mem, contains_eq_mem, decide_eq_true_eq,
    decide_eq_true_eq] at h
  exact fun c hc => ⟨fun heq => h.1 (heq ▸ hc), fun heq => h.2 (heq ▸ hc)⟩

theorem noBreak_pairText {entry : Chars × Chars} (h : checkLabel std entry = .ok ()) :
    NoBreak (pairText entry) := by
  obtain ⟨hkey, h⟩ := check_ok h
  obtain ⟨hvalue, -⟩ := check_ok h
  have hescaped : NoBreak (escapeLabelValue entry.2) := by
    refine .flatMap fun c hc => ?_
    have hc' := noBreak_of_hasNewline hvalue c hc
    split
    · exact .cons (by decide) (.cons hc' noBreak_nil)
    · exact .cons hc' noBreak_nil
  refine (noBreak_of_hasNewline hkey).append (.cons (by decide) (.cons (by decide) ?_))
  exact hescaped.append (.cons (by decide) noBreak_nil)

theorem noBreak_joinPairs {entries : List (Chars × Chars)} (h : ∀ entry ∈ entries, NoBreak (pairText entry)) :
    NoBreak (joinPairs entries) := by
  induction entries with
  | nil => exact noBreak_nil
  | cons entry entries ih =>
    obtain ⟨hentry, hentries⟩ := forall_mem_cons.1 h
    rw [joinPairs_cons]
    refine hentry.append ?_
    split
    · exact noBreak_nil
    · exact .cons (by decide) (.cons (by decide) (ih hentries))

theorem noBreak_columnHeader {labels : LabelSet} {header : Chars} (h : columnHeader std labels = .ok header) :
    NoBreak header := by
  have hcheck : ∀ entry ∈ labels.entries, checkLabel std entry = .ok () := by
    obtain ⟨_, hcheck, -⟩ := bind_ok h
    exact forM_ok hcheck
  rw [(columnHeader_ok h).1]
  refine .cons (by decide) (.append (noBreak_joinPairs fun entry hentry => ?_) (.cons (by decide) noBreak_nil))
  exact noBreak_pairText (hcheck entry (mem_of_headerEntries hentry))

theorem noBreak_csvQuoteField {field : Chars} (h : NoBreak field) : NoBreak (csvQuoteField field) := by
  have hdoubled : NoBreak (field.flatMap fun ch => if ch = '"' then ['"', ch] else [ch]) := by
    refine .flatMap fun c hc => ?_
    split
    · exact .cons (by decide) (.cons (h c hc) noBreak_nil)
    · exact .cons (h c hc) noBreak_nil
  exact (NoBreak.cons (by decide) hdoubled).append (.cons (by decide) noBreak_nil)

/-- The header row, and its columns. -/
theorem headerRow_ok (h : headerRow std sets = .ok row) :
    ∃ headers : List Chars, sets.mapM (columnHeader std) = .ok headers ∧
      row = timestampText ++ headers.flatMap fun header => ',' :: csvQuoteField header := by
  obtain ⟨headers, hheaders, h⟩ := bind_ok h
  exact ⟨headers, hheaders, (Except.ok.inj h).symm⟩

theorem noBreak_headerRow (h : headerRow std sets = .ok row) : NoBreak row := by
  obtain ⟨headers, hheaders, rfl⟩ := headerRow_ok h
  refine NoBreak.append (by simp [NoBreak, timestampText]) (.flatMap fun header hheader => ?_)
  obtain ⟨labels, -, hlabels⟩ := mapM_ok hheaders header hheader
  exact .cons (by decide) (noBreak_csvQuoteField (noBreak_columnHeader hlabels))

theorem trim_headerRow (h : headerRow std sets = .ok row) :
    trim row = row ∧ row ≠ [] ∧ row.head? ≠ some '#' := by
  obtain ⟨headers, -, rfl⟩ := headerRow_ok h
  refine ⟨trim_of_ends (.cons (by decide) _) (.flatMap ?_ fun header _ => ?_), cons_ne_nil _ _, ?_⟩
  · exact .concat ['t', 'i', 'm', 'e', 's', 't', 'a', 'm'] (by decide)
  · exact .concat (',' :: '"' :: _) (by decide)
  · exact fun heq => absurd (Option.some.inj heq) (by decide)

/-- The second field of a header row starts with a quote, which no number does. -/
theorem isHeaderLine_headerRow (hquoted : ∀ s, std.parseF64 ('"' :: s) = none) (hne : sets ≠ [])
    (h : headerRow std sets = .ok row) : isHeaderLine std row = true := by
  obtain ⟨headers, hheaders, rfl⟩ := headerRow_ok h
  have hlen := (mapM_ok_forall₂ hheaders).length_eq
  cases headers with
  | nil => exact absurd (eq_nil_of_length_eq_zero hlen) hne
  | cons header headers =>
    have hnot : ',' ∉ timestampText := fun hmem => (timestampText_word ',' hmem).1 rfl
    rw [flatMap_cons, cons_append, csvQuoteField_append]
    obtain ⟨rest, fields, hsplit⟩ := splitOn_cons (c := '"') (s := ',') (by decide)
      ((header.flatMap fun ch => if ch = '"' then ['"', ch] else [ch]) ++
        '"' :: headers.flatMap fun header => ',' :: csvQuoteField header)
    have hfirst : notNumeric std ('"' :: rest) = true := by
      obtain ⟨rest', hrest'⟩ := trim_cons (c := '"') (by decide) rest
      unfold notNumeric
      rw [hrest', hquoted]
      rfl
    unfold isHeaderLine
    rw [splitOn_append_cons_self_of_not_mem hnot, hsplit]
    show (notNumeric std ('"' :: rest) || fields.any (notNumeric std)) = true
    rw [hfirst, Bool.true_or]

end

/-! ## The rows -/

section
variable {std : StdWrite F}
variable {i : Nat} {text : Chars} {s : NormalizedSeries F}

theorem Plain.noBreak {s : Chars} (h : Plain s) : NoBreak s := by
  intro c hc
  have hspace := h.noSpace c hc
  constructor <;>
  · rintro rfl
    exact absurd hspace (by decide)

theorem Plain.begins {s : Chars} (h : Plain s) : Begins s := by
  obtain ⟨c, rest, rfl⟩ := exists_cons_of_ne_nil h.nonempty
  exact .cons (h.noSpace c mem_cons_self) rest

theorem Plain.ends {s : Chars} (h : Plain s) : Ends s := by
  have heq := dropLast_append_getLast h.nonempty
  rw [← heq]
  exact .concat _ (h.noSpace _ (getLast_mem h.nonempty))

theorem Plain.trim {s : Chars} (h : Plain s) : trim s = s := trim_of_ends h.begins h.ends

/-- A cell is blank, or a number. -/
theorem cellText_cases (std : StdWrite F) (s : NormalizedSeries F) (n : Nat) :
    (s.values[n]?.join = none ∧ cellText std s n = []) ∨
      ∃ v, s.values[n]?.join = some v ∧ cellText std s n = std.showF64 v := by
  unfold cellText
  split
  · next v hv =>
    rw [hv]
    exact .inr ⟨v, rfl, rfl⟩
  · next hnot =>
    refine .inl ⟨?_, rfl⟩
    rcases hv : s.values[n]? with _ | _ | v
    · rfl
    · rfl
    · exact absurd hv (hnot v)

theorem cellText_induction {P : Chars → Prop} (hnil : P []) (hshow : ∀ v, P (std.showF64 v)) :
    P (cellText std s n) := by
  rcases cellText_cases std s n with ⟨-, hcell⟩ | ⟨v, -, hcell⟩
  · rwa [hcell]
  · rw [hcell]
    exact hshow v

theorem noComma_cellText (std : StdWrite F) (s : NormalizedSeries F) (n : Nat) : ',' ∉ cellText std s n :=
  cellText_induction (P := (',' ∉ ·)) not_mem_nil
    fun v hmem => ((std.showF64_plain v).noDelimiter ',' hmem).1 rfl

theorem trim_cellText (std : StdWrite F) (s : NormalizedSeries F) (n : Nat) :
    trim (cellText std s n) = cellText std s n :=
  cellText_induction (P := fun t => trim t = t) rfl fun v => (std.showF64_plain v).trim

variable (grid : Grid) (series : List (NormalizedSeries F)) (n : Nat)

theorem splitOn_dataRow (text : Chars) (htext : ',' ∉ text) :
    (text ++ series.flatMap fun s => ',' :: cellText std s n).splitOn ',' =
      text :: series.map fun s => cellText std s n := by
  induction series generalizing text with
  | nil =>
    rw [flatMap_nil, append_nil]
    exact splitOn_eq_singleton htext
  | cons s series ih =>
    rw [flatMap_cons, cons_append, splitOn_append_cons_self_of_not_mem htext,
      ih (cellText std s n) (noComma_cellText std s n), map_cons]

/-- The cells of a row: the timestamp, and a cell of every series. -/
theorem cells_dataRow : cells (dataRow std grid series n) =
      std.showMillis (grid.point n) :: series.map fun s => cellText std s n := by
  have hplain := std.showMillis_plain (grid.point n)
  have hnot : ',' ∉ std.showMillis (grid.point n) := fun hmem => (hplain.noDelimiter ',' hmem).1 rfl
  unfold cells dataRow formatTimestamp
  rw [splitOn_dataRow series n _ hnot, map_cons, hplain.trim, map_map]
  congr 1
  exact map_congr_left fun s _ => trim_cellText std s n

theorem dataRow_isRow : DataRow std.toStdText (series.length + 1) (dataRow std grid series n) := by
  refine ⟨?_, ?_, ?_⟩ <;> rw [cells_dataRow]
  · rw [length_cons, length_map]
  · intro cell hcell
    cases hcell
    exact std.parse_showMillis _
  · intro cell hcell
    obtain ⟨s, -, rfl⟩ := mem_map.1 hcell
    rcases cellText_cases std s n with ⟨-, hcell⟩ | ⟨v, -, hcell⟩
    · exact .inl hcell
    · rw [hcell, std.parse_showF64]
      exact .inr rfl

theorem noBreak_dataRow : NoBreak (dataRow std grid series n) := by
  refine (std.showMillis_plain _).noBreak.append (.flatMap fun s _ => .cons (by decide) ?_)
  exact cellText_induction noBreak_nil fun v => (std.showF64_plain v).noBreak

theorem trim_dataRow :
    trim (dataRow std grid series n) = dataRow std grid series n ∧ dataRow std grid series n ≠ [] ∧
      (dataRow std grid series n).head? ≠ some '#' := by
  have hplain := std.showMillis_plain (grid.point n)
  obtain ⟨c, rest, heq⟩ := exists_cons_of_ne_nil hplain.nonempty
  refine ⟨trim_of_ends (hplain.begins.append _) (hplain.ends.flatMap fun s _ => ?_), ?_, ?_⟩
  · exact cellText_induction (P := fun t => Ends (',' :: t)) (.concat [] (by decide))
      fun v => .append [','] (std.showF64_plain v).ends
  · exact fun hnil => hplain.nonempty (append_eq_nil_iff.1 hnil).1
  · unfold dataRow formatTimestamp
    rw [heq]
    intro hhead
    refine (hplain.noDelimiter c ?_).2.2 (Option.some.inj hhead)
    rw [heq]
    exact mem_cons_self

/-! ## The capture -/

variable {grid series}

/-- The lines of a capture are its header and its rows. -/
theorem lines_writeCsv (h : writeCsv std grid series = .ok text) :
    ∃ header, headerRow std.toStdText (series.map NormalizedSeries.labels) = .ok header ∧
      lines text = header :: (List.range grid.len).map (dataRow std grid series) ∧
      dataLines (lines text) = header :: (List.range grid.len).map (dataRow std grid series) := by
  obtain ⟨header, hheader, h⟩ := bind_ok h
  cases h
  have hlines : lines (header ++ '\n' :: (range grid.len).flatMap fun n =>
      dataRow std grid series n ++ ['\n']) = header :: (range grid.len).map (dataRow std grid series) := by
    have hbreak : ∀ line ∈ header :: (range grid.len).map (dataRow std grid series), NoBreak line := by
      refine forall_mem_cons.2 ⟨noBreak_headerRow hheader, fun line hline => ?_⟩
      obtain ⟨n, -, rfl⟩ := mem_map.1 hline
      exact noBreak_dataRow grid series n
    have hended := lines_ended hbreak
    rw [flatMap_cons, flatMap_map, append_assoc, singleton_append] at hended
    exact hended
  refine ⟨header, hheader, hlines, ?_⟩
  rw [hlines]
  refine dataLines_eq_self (forall_mem_cons.2 ⟨trim_headerRow hheader, fun line hline => ?_⟩)
  obtain ⟨n, -, rfl⟩ := mem_map.1 hline
  exact trim_dataRow grid series n

/-- A cell of the column of a series. -/
theorem cellOf_dataRow (hs : series[i]? = some s) :
    cellOf (i + 1) (dataRow std grid series n) = cellText std s n := by
  unfold cellOf
  rw [cells_dataRow, getElem?_cons_succ, getElem?_map, hs]
  rfl

theorem slotOf_dataRow (hs : series[i]? = some s) :
    slotOf std.toStdText (i + 1) (dataRow std grid series n) = (s.values[n]?.join).getD std.nan := by
  unfold slotOf
  rw [cellOf_dataRow n hs]
  rcases cellText_cases std s n with ⟨hvalue, hcell⟩ | ⟨v, hvalue, hcell⟩
  · rw [hvalue, hcell, std.empty, Option.getD_none]
  · rw [hvalue, hcell, std.parse_showF64]

theorem isEmpty_cellText (std : StdWrite F) (s : NormalizedSeries F) (n : Nat) :
    (cellText std s n).isEmpty = (s.values[n]?.join).isNone := by
  rcases cellText_cases std s n with ⟨hvalue, hcell⟩ | ⟨v, hvalue, hcell⟩
  · rw [hvalue, hcell, isEmpty_nil, Option.isNone_none]
  · rw [hvalue, hcell, isEmpty_eq_false_iff.2 (std.showF64_plain v).nonempty, Option.isNone_some]

theorem blankRows_map_range (column : Nat) (f : Nat → Chars) (len : Nat) :
    blankRows column ((List.range len).map f) = (List.range len).filter fun n => (cellOf column (f n)).isEmpty := by
  induction len with
  | zero => rfl
  | succ len ih =>
    rw [range_succ, map_append, map_singleton, blankRows_concat, ih, filter_append,
      filter_singleton, length_map, length_range, Bool.cond_eq_ite]

/-- Column `i + 1` of a written capture has the samples of series `i`, and its blank rows are
those without one. -/
theorem columnValuesAndGaps_writeCsv (h : writeCsv std grid series = .ok text)
    (hs : series[i]? = some s) :
    columnValuesAndGaps std.toStdText text (i + 1) =
      .ok ((List.range grid.len).map fun n => (s.values[n]?.join).getD std.nan,
        (List.range grid.len).filter fun n => (s.values[n]?.join).isNone) := by
  obtain ⟨header, hheader, -, hdata⟩ := lines_writeCsv h
  have hlt : i < series.length := (List.getElem?_eq_some_iff.1 hs).1
  have hne : series.map NormalizedSeries.labels ≠ [] := by
    intro hnil
    rw [map_eq_nil_iff.1 hnil] at hlt
    exact absurd hlt (Nat.not_lt_zero i)
  have hrows : ∀ row ∈ (range grid.len).map (dataRow std grid series),
      DataRow std.toStdText (series.length + 1) row := by
    intro row hrow
    obtain ⟨n, -, rfl⟩ := mem_map.1 hrow
    exact dataRow_isRow grid series n
  have hback : ReadsBack std.toStdText (i + 1) text ((range grid.len).map (dataRow std grid series)) :=
    readsBack_of_header hdata (isHeaderLine_headerRow std.quoted hne hheader) (by omega) hrows
  refine Eq.trans hback ?_
  rw [map_map, blankRows_map_range]
  congr 2
  · exact map_congr_left fun n _ => slotOf_dataRow n hs
  · refine filter_congr fun n _ => ?_
    rw [cellOf_dataRow n hs, isEmpty_cellText]

end

/-- The windows of a column cover its absent rows and no others, and the text of a capture gives back
every series with its absent rows. -/
theorem capture_reads_back (std : StdParse) (write : StdWrite F) :
    (∀ (values : List (Option F)) (stepSecs : ℚ) (windows : List GapWindowConfig), 0 < stepSecs →
      gapWindowsFor std values stepSecs = .ok windows →
      ∃ resolved, windows.mapM (GapWindowConfig.resolve std) = .ok resolved ∧ ∀ row < values.length,
        covered (resolved.map windowSecs) stepSecs row = true ↔ values[row]? = some none) ∧
    ∀ (grid : Grid) (series : List (NormalizedSeries F)) (text : Chars),
      writeCsv write grid series = .ok text → ∀ (i : Nat) (s : NormalizedSeries F), series[i]? = some s →
      columnValuesAndGaps write.toStdText text (i + 1) =
        .ok ((List.range grid.len).map fun n => (s.values[n]?.join).getD write.nan,
          (List.range grid.len).filter fun n => (s.values[n]?.join).isNone) :=
  ⟨fun _ _ _ hstep h => gapWindowsFor_covered hstep h,
    fun _ _ _ h _ _ hs => columnValuesAndGaps_writeCsv h hs⟩

/-- Shows whole numbers. -/
def wholeParse : StdParse := { Config.decimalParse with showF64 secs := decimal secs.floor.toNat }

/-- Zero, one and `NaN`. -/
def bitText : Option Bool → Chars
  | some false => ['0']
  | some true => ['1']
  | none => ['N', 'a', 'N']

/-- The texts that are read. -/
def bitTexts : List (Chars × Option Bool) :=
  [(['0'], some false), (['1'], some true), (['N', 'a', 'N'], none), (['0', '.', '0', '0', '0'], some false),
    (['1', '.', '0', '0', '0'], some true)]

/-- Writes the numbers zero and one, and the instants zero and one. -/
def bitWrite : StdWrite (Option Bool) where
  quote s := String.ofList s
  parseF64 s := (bitTexts.find? (·.1 = s)).map Prod.snd
  empty := rfl
  nan := none
  showF64 := bitText
  showMillis instant := if instant < 1 then ['0', '.', '0', '0', '0'] else ['1', '.', '0', '0', '0']
  showF64_plain v := by
    rcases v with _ | _ | _ <;> exact ⟨by decide, by simp [bitText, isWhitespace], by simp [bitText]⟩
  showMillis_plain instant := by
    split <;> exact ⟨by decide, by simp [isWhitespace], by simp⟩
  parse_showF64 v := by
    rcases v with _ | _ | _ <;> rfl
  parse_showMillis instant := by
    split <;> rfl
  quoted s := by
    simp [bitTexts]

/-- A series with its second sample missing. -/
def gapSeries : NormalizedSeries (Option Bool) := ⟨⟨[(nameKey, ['u', 'p'])], by decide⟩, [some (some true), none]⟩

theorem capture_reads_back_gap :
    (∃ windows, gapWindowsFor wholeParse gapSeries.values 2 = .ok windows ∧
      ∃ resolved, windows.mapM (GapWindowConfig.resolve wholeParse) = .ok resolved ∧
        ∀ row < gapSeries.values.length,
          covered (resolved.map windowSecs) 2 row = true ↔ gapSeries.values[row]? = some none) ∧
    ∃ text, writeCsv bitWrite ⟨0, 1, 2⟩ [gapSeries] = .ok text ∧
      columnValuesAndGaps bitWrite.toStdText text 1 = .ok ([some true, none], [1]) := by
  have hwindows : gapWindowsFor wholeParse gapSeries.values 2 = .ok [⟨[0x31, 0x73], [0x32, 0x73]⟩] :=
    ok_of_toOption (by decide +kernel)
  have htext : writeCsv bitWrite ⟨0, 1, 2⟩ [gapSeries] = .ok (timestampText ++
      [',', '"', '{'] ++ nameKey ++ ['=', '"', '"', 'u', 'p', '"', '"', '}', '"', '\n', '0', '.', '0', '0', '0', ',',
        '1', '\n', '1', '.', '0', '0', '0', ',', '\n']) :=
    ok_of_toOption (by decide +kernel)
  refine ⟨⟨_, hwindows, ?_⟩, _, htext, ?_⟩
  · exact (capture_reads_back wholeParse bitWrite).1 gapSeries.values 2 _ (by norm_num) hwindows
  · exact (capture_reads_back wholeParse bitWrite).2 ⟨0, 1, 2⟩ [gapSeries] _ htext 0 gapSeries rfl

end Sonda.Csv
