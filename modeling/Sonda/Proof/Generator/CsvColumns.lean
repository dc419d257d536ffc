import Sonda.Framework.Fallible
import Sonda.Impl.Generator.CsvReplay

/-!
# One slot for every data row

What `parseValuesAndGaps` reads from the data lines of a text, which are the lines that
are neither blank nor comments. The loop keeps the slots of the rows behind it
(`readUp`, `readLine_data`, `foldlM_readLine`), and the first data line decides whether a
row is lost (`foldlM_first`): `parseValuesAndGaps_eq_iff`.
-/

namespace Sonda.Csv

open Framework List
open Sonda.Schedule (SondaError)

variable {F : Type} (std : StdText F) (column : Nat)
variable {items : List (Chars × Nat)} {row line : Chars} {rows : List Chars} {c : Nat}
  {r r' : Reading F}

/-! ## Rows -/

/-- The lines that are neither blank nor comments, without the white space around them. -/
def dataLines (ls : List Chars) : List Chars :=
  (ls.map trim).filter fun line => !line.isEmpty && decide (line.head? ≠ some '#')

def cells (row : Chars) : List Chars := (row.splitOn ',').map trim

/-- A data row of `c` cells: a number, and behind it numbers and blanks. -/
structure DataRow (c : Nat) (row : Chars) : Prop where
  count : (cells row).length = c
  first : ∀ cell ∈ (cells row).head?, (std.parseF64 cell).isSome
  rest : ∀ cell ∈ (cells row).tail, cell = [] ∨ (std.parseF64 cell).isSome

/-- The cell of the column. -/
def cellOf (row : Chars) : Chars := (cells row)[column]?.getD []

/-- The value of the cell, where there is one. -/
def slotOf (row : Chars) : F := (std.parseF64 (cellOf column row)).getD std.nan

/-- The indices of the rows whose cell is blank. -/
def blankRows (rows : List Chars) : List Nat :=
  (rows.zipIdx.filter fun item => (cellOf column item.1).isEmpty).map Prod.snd

theorem blankRows_concat (rows : List Chars) (row : Chars) : blankRows column (rows ++ [row]) =
      blankRows column rows ++ (if (cellOf column row).isEmpty then [rows.length] else []) := by
  unfold blankRows
  rw [zipIdx_append, filter_append, map_append]
  congr 1
  show map _ (filter _ [(row, 0 + rows.length)]) = _
  rw [Nat.zero_add, filter_singleton, Bool.cond_eq_ite]
  split <;> rfl

section
variable {std} {column} {c : Nat} {row : Chars}

theorem DataRow.getElem? (h : DataRow std c row) (hcol : column < c) :
    ∃ field, (row.splitOn ',')[column]? = some field ∧ trim field = cellOf column row := by
  have hlen : column < (row.splitOn ',').length := by
    have hcount := h.count
    unfold cells at hcount
    rw [length_map] at hcount
    omega
  refine ⟨(row.splitOn ',')[column], getElem?_eq_getElem hlen, ?_⟩
  unfold cellOf cells
  rw [getElem?_map, getElem?_eq_getElem hlen]
  rfl

/-- A cell of a data row is a number, or blank. -/
theorem DataRow.blank_or_number (h : DataRow std c row) (hcol : column < c) :
    cellOf column row = [] ∨ ∃ v, std.parseF64 (cellOf column row) = some v := by
  have hlen : column < (cells row).length := by
    rw [h.count]
    exact hcol
  have hcell : cellOf column row = (cells row)[column] := by
    unfold cellOf
    rw [getElem?_eq_getElem hlen]
    rfl
  rw [hcell]
  cases column with
  | zero =>
    refine .inr (Option.isSome_iff_exists.1 (h.first _ ?_))
    rw [head?_eq_getElem?, getElem?_eq_getElem hlen]
    exact rfl
  | succ i =>
    have hmem : (cells row)[i + 1] ∈ (cells row).tail := by
      rw [mem_iff_getElem?]
      exact ⟨i, by rw [getElem?_tail, getElem?_eq_getElem hlen]⟩
    exact (h.rest _ hmem).imp_right Option.isSome_iff_exists.1

/-- A data row is taken for a header when one of its cells is blank. -/
theorem DataRow.isHeaderLine_iff (h : DataRow std c row) (hc : 2 ≤ c) :
    isHeaderLine std row = true ↔ [] ∈ (cells row).tail := by
  have hcount := h.count
  have hrest := h.rest
  unfold isHeaderLine
  unfold cells at hcount hrest ⊢
  split
  · next heq =>
    rw [heq] at hcount
    simp at hcount
    omega
  · next field heq =>
    rw [heq] at hcount
    simp at hcount
    omega
  · next first fields _ heq =>
    rw [heq] at hrest ⊢
    rw [any_eq_true]
    constructor
    · rintro ⟨field, hmem, hnot⟩
      rcases hrest _ (mem_map_of_mem hmem) with hblank | hnumber
      · rw [← hblank]
        exact mem_map_of_mem hmem
      · unfold notNumeric at hnot
        rw [Option.isNone_iff_eq_none] at hnot
        rw [hnot] at hnumber
        cases hnumber
    · intro hmem
      obtain ⟨field, hfield, hblank⟩ := mem_map.1 hmem
      refine ⟨field, hfield, ?_⟩
      unfold notNumeric
      rw [hblank, std.empty]
      rfl

end

/-! ## The loop -/

/-- The variables of the loop behind these rows. -/
def readUp (rows : List Chars) : Reading F :=
  ⟨rows.map (slotOf std column), blankRows column rows, false⟩

theorem readRow_dataRow (h : DataRow std c row) (hcol : column < c) (lineNo : Nat)
    (rows : List Chars) :
    readRow std column lineNo row (readUp std column rows) = .ok (readUp std column (rows ++ [row])) := by
  obtain ⟨field, hfield, htrim⟩ := h.getElem? hcol
  unfold readRow
  dsimp only
  rw [hfield]
  dsimp only
  rw [htrim]
  unfold readUp
  rw [blankRows_concat, map_append, map_singleton]
  rcases h.blank_or_number hcol with hblank | ⟨v, hv⟩
  · have hslot : slotOf std column row = std.nan := by
      unfold slotOf
      rw [hblank, std.empty]
      rfl
    rw [hslot, hblank]
    rw [length_map]
    rfl
  · have hslot : slotOf std column row = v := by
      unfold slotOf
      rw [hv]
      rfl
    have hne : (cellOf column row).isEmpty = false := by
      rw [isEmpty_eq_false_iff]
      intro hempty
      rw [hempty, std.empty] at hv
      cases hv
    rw [hslot, hv, hne]
    show Except.ok _ = Except.ok _
    rw [if_neg (by decide), append_nil]

/-- A row that is read takes one slot. -/
theorem readRow_length {lineNo : Nat} (h : readRow std column lineNo row r = .ok r') :
    r'.values.length = r.values.length + 1 ∧ r'.firstDataLine = r.firstDataLine := by
  unfold readRow at h
  dsimp only at h
  split at h
  · cases h
  · split at h
    · cases h
      exact ⟨length_append, rfl⟩
    · split at h
      · cases h
      · cases h
        exact ⟨length_append, rfl⟩

/-- A line that is blank or a comment changes nothing. -/
theorem readLine_skip (h : dataLines [line] = []) (i : Nat) (r : Reading F) :
    readLine std column r (line, i) = .ok r := by
  unfold dataLines at h
  unfold readLine
  by_cases hempty : (trim line).isEmpty = true
  · rw [if_pos hempty]
  · by_cases hcomment : (trim line).head? = some '#'
    · rw [if_neg hempty, if_pos hcomment]
    · simp [hempty, hcomment] at h

theorem readLine_data (h : dataLines [line] = [row]) (i : Nat) (r : Reading F) :
    readLine std column r (line, i) = if r.firstDataLine then
        if isHeaderLine std row then .ok { r with firstDataLine := false }
        else readRow std column (i + 1) row { r with firstDataLine := false }
      else readRow std column (i + 1) row r := by
  unfold dataLines at h
  rw [map_singleton, filter_singleton, Bool.cond_eq_ite] at h
  split at h
  · next hdata =>
    cases h
    rw [Bool.and_eq_true, decide_eq_true_eq, Bool.not_eq_true'] at hdata
    unfold readLine
    dsimp only
    rw [hdata.1, if_neg (by decide), if_neg hdata.2]
  · cases h

theorem dataLines_cons (line : Chars) (ls : List Chars) :
    dataLines (line :: ls) = dataLines [line] ++ dataLines ls := by
  unfold dataLines
  rw [← filter_append, ← map_append]
  rfl

theorem dataLines_singleton (line : Chars) : dataLines [line] = [] ∨ ∃ row, dataLines [line] = [row] := by
  unfold dataLines
  rw [map_singleton, filter_singleton, Bool.cond_eq_ite]
  split
  · exact .inr ⟨_, rfl⟩
  · exact .inl rfl

/-- Once the first data line is behind the loop, it reads every row. -/
theorem foldlM_readLine (hcol : column < c)
    (h : ∀ row ∈ dataLines (items.map Prod.fst), DataRow std c row) (rows : List Chars) :
    items.foldlM (readLine std column) (readUp std column rows) =
      .ok (readUp std column (rows ++ dataLines (items.map Prod.fst))) := by
  induction items generalizing rows with
  | nil =>
    show Except.ok _ = _
    rw [map_nil, show dataLines [] = [] from rfl, append_nil]
  | cons item items ih =>
    obtain ⟨line, i⟩ := item
    rw [map_cons, dataLines_cons] at h ⊢
    rw [foldlM_cons]
    rcases dataLines_singleton line with hskip | ⟨row, hrow⟩
    · rw [readLine_skip std column hskip, hskip]
      rw [hskip] at h
      exact ih h rows
    · rw [hrow] at h ⊢
      obtain ⟨hhead, htail⟩ := forall_mem_cons.1 h
      rw [readLine_data std column hrow, if_neg (show ¬ (readUp std column rows).firstDataLine = true from
        Bool.false_ne_true), readRow_dataRow std column hhead hcol]
      rw [← append_assoc]
      exact ih htail (rows ++ [row])

/-- A run of the loop takes one slot for every data line. -/
theorem foldlM_readLine_length (hfirst : r.firstDataLine = false)
    (h : items.foldlM (readLine std column) r = .ok r') :
    r'.values.length = r.values.length + (dataLines (items.map Prod.fst)).length := by
  induction items generalizing r with
  | nil =>
    cases h
    rfl
  | cons item items ih =>
    obtain ⟨line, i⟩ := item
    obtain ⟨r₁, hline, h⟩ := bind_ok h
    rw [map_cons, dataLines_cons, length_append]
    rcases dataLines_singleton line with hskip | ⟨row, hrow⟩
    · rw [readLine_skip std column hskip] at hline
      cases hline
      rw [ih hfirst h, hskip, length_nil, Nat.zero_add]
    · rw [readLine_data std column hrow, hfirst, if_neg (by decide)] at hline
      obtain ⟨hlen, hfirst₁⟩ := readRow_length std column hline
      rw [ih (hfirst₁.trans hfirst) h, hlen, hrow, length_singleton]
      omega

/-- The first data line is dropped as a header, or read. -/
theorem foldlM_first (h : dataLines (items.map Prod.fst) = row :: rows) :
    ∃ lineNo, ∃ items' : List (Chars × Nat), dataLines (items'.map Prod.fst) = rows ∧
      items.foldlM (readLine std column) ⟨[], [], true⟩ =
        (if isHeaderLine std row then .ok (readUp std column [])
          else readRow std column lineNo row (readUp std column [])) >>= fun r =>
            items'.foldlM (readLine std column) r := by
  induction items with
  | nil => cases h
  | cons item items ih =>
    obtain ⟨line, i⟩ := item
    rw [map_cons, dataLines_cons] at h
    rw [foldlM_cons]
    rcases dataLines_singleton line with hskip | ⟨row', hrow⟩
    · rw [hskip] at h
      rw [readLine_skip std column hskip]
      exact ih h
    · rw [hrow] at h
      obtain ⟨rfl, hrows⟩ := cons.inj h
      refine ⟨i + 1, items, hrows, ?_⟩
      rw [readLine_data std column hrow, if_pos rfl]
      rfl

theorem foldlM_empty (h : dataLines (items.map Prod.fst) = []) :
    items.foldlM (readLine std column) ⟨[], [], true⟩ = .ok ⟨[], [], true⟩ := by
  induction items with
  | nil => rfl
  | cons item items ih =>
    rw [map_cons, dataLines_cons, append_eq_nil_iff] at h
    rw [foldlM_cons, readLine_skip std column h.1]
    exact ih h.2

/-! ## The column -/

/-- The rows come back as they stand in the text. -/
def ReadsBack (content : Chars) (rows : List Chars) : Prop :=
  parseValuesAndGaps std content column = .ok (rows.map (slotOf std column), blankRows column rows)

theorem readsBack_iff {content : Chars} : ReadsBack std column content rows ↔
      ∃ r : Reading F, (lines content).zipIdx.foldlM (readLine std column) ⟨[], [], true⟩ = .ok r ∧
        r.values = rows.map (slotOf std column) ∧ r.blanks = blankRows column rows := by
  unfold ReadsBack parseValuesAndGaps
  constructor
  · intro h
    obtain ⟨r, hr, h⟩ := bind_ok h
    obtain ⟨hvalues, hblanks⟩ := Prod.mk.inj (Except.ok.inj h)
    exact ⟨r, hr, hvalues, hblanks⟩
  · rintro ⟨r, hr, hvalues, hblanks⟩
    rw [hr, ← hvalues, ← hblanks]
    rfl

section
variable {std} {column} {content : Chars} {rows : List Chars} {c : Nat} {line : Chars}

/-- Every row is read when the first data line is a header, and the rows are behind it. -/
theorem readsBack_of_header (hdata : dataLines (lines content) = line :: rows)
    (hline : isHeaderLine std line = true) (hcol : column < c)
    (hrows : ∀ row ∈ rows, DataRow std c row) : ReadsBack std column content rows := by
  rw [← zipIdx_map_fst 0 (lines content)] at hdata
  obtain ⟨_, items, hitems, hfold⟩ := foldlM_first std column hdata
  rw [if_pos hline] at hfold
  refine (readsBack_iff std column).2 ⟨readUp std column rows, ?_, rfl, rfl⟩
  rw [hfold, ← hitems]
  exact foldlM_readLine std column hcol (by rwa [hitems]) []

theorem readsBack_of_row {row : Chars} (hdata : dataLines (lines content) = row :: rows)
    (hrow : ¬ isHeaderLine std row = true) (hcol : column < c) (hrows : ∀ r ∈ row :: rows, DataRow std c r) :
    ReadsBack std column content (row :: rows) := by
  rw [← zipIdx_map_fst 0 (lines content)] at hdata
  obtain ⟨lineNo, items, hitems, hfold⟩ := foldlM_first std column hdata
  obtain ⟨hhead, htail⟩ := forall_mem_cons.1 hrows
  rw [if_neg hrow, readRow_dataRow std column hhead hcol] at hfold
  refine (readsBack_iff std column).2 ⟨readUp std column (row :: rows), ?_, rfl, rfl⟩
  rw [hfold, ← hitems]
  exact foldlM_readLine std column hcol (by rwa [hitems]) [row]

/-- The number of rows that are read: a first line that is taken for a header is not. -/
theorem ReadsBack.length {others : List Chars} (h : ReadsBack std column content rows)
    (hdata : dataLines (lines content) = line :: others) :
    rows.length = (if isHeaderLine std line then 0 else 1) + others.length := by
  rw [← zipIdx_map_fst 0 (lines content)] at hdata
  obtain ⟨lineNo, items, hitems, hfold⟩ := foldlM_first std column hdata
  obtain ⟨r, hr, hvalues, -⟩ := (readsBack_iff std column).1 h
  have hlen : rows.length = r.values.length := by rw [hvalues, length_map]
  rw [hfold] at hr
  obtain ⟨r₁, hr₁, hr⟩ := bind_ok hr
  split at hr₁
  · next hline =>
    cases hr₁
    rw [hlen, foldlM_readLine_length std column rfl hr, hitems, if_pos hline]
    rfl
  · next hline =>
    obtain ⟨hone, hfirst⟩ := readRow_length std column hr₁
    rw [hlen, foldlM_readLine_length std column hfirst hr, hone, hitems, if_neg hline]
    rfl

end

/-- The line in front of the rows is a header for the code, and so is no row without one. -/
def HeaderIsTold (header : Option Chars) (rows : List Chars) : Prop :=
  match header with
  | some line => isHeaderLine std line = true
  | none => ∀ row ∈ rows.head?, [] ∉ (cells row).tail

/-- With a header in front, the rows come back when it is one for the code, which is when a
cell behind the first is no number. Without one, they come back when the first row has no
blank cell. -/
theorem parseValuesAndGaps_eq_iff (content : Chars) (header : Option Chars) (rows : List Chars) (c : Nat)
    (hdata : dataLines (lines content) = header.toList ++ rows) (hc : 2 ≤ c)
    (hrows : ∀ row ∈ rows, DataRow std c row) (hcol : column < c) :
    parseValuesAndGaps std content column = .ok (rows.map (slotOf std column), blankRows column rows) ↔
      HeaderIsTold std header rows := by
  show ReadsBack std column content rows ↔ _
  cases header with
  | some line =>
    change dataLines (lines content) = line :: rows at hdata
    refine ⟨fun h => ?_, fun hline => readsBack_of_header hdata hline hcol hrows⟩
    have hlen := h.length hdata
    by_contra hline
    change ¬ isHeaderLine std line = true at hline
    rw [if_neg hline] at hlen
    omega
  | none =>
    cases rows with
    | nil =>
      refine iff_of_true ?_ fun row hrow => nomatch hrow
      rw [← zipIdx_map_fst 0 (lines content)] at hdata
      exact (readsBack_iff std column).2 ⟨⟨[], [], true⟩, foldlM_empty std column hdata, rfl, rfl⟩
    | cons row rows =>
      have hrow := (hrows row mem_cons_self).isHeaderLine_iff hc
      constructor
      · intro h first hfirst hblank
        cases hfirst
        have hlen := h.length hdata
        rw [if_pos (hrow.2 hblank), length_cons] at hlen
        omega
      · intro hblank
        exact readsBack_of_row hdata (fun h => hblank row rfl (hrow.1 h)) hcol hrows

/-- Decimal numbers only. A number that is not there is `none`. -/
def decimalText : StdText (Option Nat) where
  quote s := String.ofList s
  parseF64 s := if !s.isEmpty && s.all Char.isDigit then
    some (some (s.foldl (fun n c => 10 * n + (c.toNat - '0'.toNat)) 0)) else none
  empty := rfl
  nan := none

/-- A header, a comment, and a blank cell in the first row. -/
theorem parseValuesAndGaps_header :
    dataLines (lines "t,v\n# night\n0,\n\n1,5\n".toList) = ["t,v".toList, "0,".toList, "1,5".toList] ∧
      parseValuesAndGaps decimalText "t,v\n# night\n0,\n\n1,5\n".toList 1 = .ok ([none, some 5], [0]) := by
  have hrow : ∀ row ∈ ["0,".toList, "1,5".toList], DataRow decimalText 2 row := by
    intro row hrow
    have hcases : row = "0,".toList ∨ row = "1,5".toList := by simpa using hrow
    rcases hcases with rfl | rfl <;> exact ⟨rfl, by decide, by decide⟩
  have hdata : dataLines (lines "t,v\n# night\n0,\n\n1,5\n".toList) =
      (some "t,v".toList).toList ++ ["0,".toList, "1,5".toList] := by decide
  refine ⟨hdata, ?_⟩
  exact (parseValuesAndGaps_eq_iff decimalText 1 _ (some "t,v".toList) _ 2 hdata (le_refl 2) hrow
    (by decide)).2 (show isHeaderLine decimalText "t,v".toList = true by decide)

/-- Without the header the first row is lost, and the next one is read in its place. -/
theorem parseValuesAndGaps_lost :
    dataLines (lines "0,\n1,5\n".toList) = ["0,".toList, "1,5".toList] ∧
      (cells "0,".toList = ["0".toList, []] ∧ cells "1,5".toList = ["1".toList, "5".toList]) ∧
      (["0,".toList, "1,5".toList].map (slotOf decimalText 1) = [none, some 5] ∧
        blankRows 1 ["0,".toList, "1,5".toList] = [0]) ∧
      parseValuesAndGaps decimalText "0,\n1,5\n".toList 1 = .ok ([some 5], []) :=
  ⟨by decide, by decide, by decide, ok_of_toOption (by decide)⟩

end Sonda.Csv
