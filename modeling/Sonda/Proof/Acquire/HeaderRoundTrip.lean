import Mathlib.Data.List.Lex
import Sonda.Impl.Acquire.CsvOut
import Sonda.Proof.Generator.CsvColumns
import Sonda.Proof.Generator.CsvHeader

/-!
# Column headers, written and read

The two layers of a header are undone one by one: the quotes of a field
(`splitFields_quoted`, `splitCsvHeaderFields_row`) and the escapes of a label value
(`parseQuotedValue_escape`). The pairs of a label block come back with the keys that they
were written with when these are trimmed (`parsePairs_pairs`, `parseColumnHeader_headerText`),
and only then (`parseHeaderRow_iff`).
-/

namespace Sonda.Csv

open Framework List
open Sonda.Schedule (SondaError)

variable {F : Type} {std : StdText F}
variable {entries : List (Chars × Chars)} {entry : Chars × Chars}

/-! ## Fields -/

/-- Characters that are no delimiters go to the field. -/
theorem splitFields_word (current : Chars) {word : Chars} (h : ∀ c ∈ word, c ≠ ',' ∧ c ≠ '"') (rest : Chars) :
    splitFields false current (word ++ rest) = splitFields false (current ++ word) rest := by
  induction word generalizing current with
  | nil => rw [nil_append, append_nil]
  | cons c word ih =>
    obtain ⟨hc, hword⟩ := forall_mem_cons.1 h
    rw [cons_append, splitFields.eq_7 _ _ _ hc.1 hc.2, ih _ hword, append_assoc,
      singleton_append]

/-- The end of a quoted field is a quote with no other behind it. -/
theorem splitFields_quoted (current field : Chars) {rest : Chars} (hrest : rest.head? ≠ some '"') :
    splitFields true current
        ((field.flatMap fun ch => if ch = '"' then ['"', ch] else [ch]) ++ '"' :: rest) =
      splitFields false (current ++ field) rest := by
  induction field generalizing current with
  | nil =>
    rw [flatMap_nil, nil_append, append_nil]
    cases rest with
    | nil => rfl
    | cons c rest =>
      refine splitFields.eq_3 _ _ fun rest' heq => hrest ?_
      rw [heq]
      rfl
  | cons c field ih =>
    rw [flatMap_cons, append_assoc]
    by_cases hc : c = '"'
    · rw [if_pos hc, hc, cons_append, singleton_append, splitFields.eq_2, ih, append_assoc,
        singleton_append]
    · rw [if_neg hc, singleton_append, splitFields.eq_4 _ _ _ (fun _ h _ => hc h) hc, ih,
        append_assoc, singleton_append]

theorem csvQuoteField_append (field rest : Chars) : csvQuoteField field ++ rest =
      '"' :: ((field.flatMap fun ch => if ch = '"' then ['"', ch] else [ch]) ++ '"' :: rest) := by
  unfold csvQuoteField
  rw [append_assoc, cons_append, singleton_append]

theorem head?_headers_ne (headers : List Chars) :
    (headers.flatMap fun header => ',' :: csvQuoteField header).head? ≠ some '"' := by
  cases headers with
  | nil => decide
  | cons header headers =>
    rw [flatMap_cons, cons_append, head?_cons]
    decide

theorem splitFields_headers (current : Chars) (headers : List Chars) :
    splitFields false current (headers.flatMap fun header => ',' :: csvQuoteField header) =
      current :: headers := by
  induction headers generalizing current with
  | nil => rfl
  | cons header headers ih =>
    have hquoted := splitFields_quoted [] header (head?_headers_ne headers)
    rw [flatMap_cons, cons_append, splitFields.eq_5, csvQuoteField_append, splitFields.eq_6, hquoted,
      ih, nil_append]

theorem timestampText_word : ∀ c ∈ timestampText, c ≠ ',' ∧ c ≠ '"' := by
  simp [timestampText]

theorem splitCsvHeaderFields_row (headers : List Chars) :
    splitCsvHeaderFields (timestampText ++ headers.flatMap fun header => ',' :: csvQuoteField header) =
      timestampText :: headers := by
  unfold splitCsvHeaderFields
  rw [splitFields_word [] timestampText_word, nil_append]
  exact splitFields_headers timestampText headers

/-! ## Values -/

theorem parseQuotedValue_escape (read value rest : Chars) :
    parseQuotedValue read (escapeLabelValue value ++ '"' :: rest) = .ok (read ++ value, rest) := by
  induction value generalizing read with
  | nil =>
    rw [append_nil]
    exact parseQuotedValue.eq_4 read rest
  | cons c value ih =>
    have hcons : escapeLabelValue (c :: value) =
        (if c = '\\' ∨ c = '"' then ['\\', c] else [c]) ++ escapeLabelValue value := flatMap_cons
    have happend : read ++ c :: value = read ++ [c] ++ value := by
      rw [append_assoc, singleton_append]
    rw [hcons, append_assoc, happend, ← ih]
    by_cases hc : c = '\\' ∨ c = '"'
    · rw [if_pos hc]
      exact parseQuotedValue.eq_2 read c _
    · obtain ⟨hback, hquote⟩ := not_or.1 hc
      rw [if_neg hc]
      exact parseQuotedValue.eq_5 read c _ (fun _ _ h _ => hback h) (fun h _ => hback h) hquote

/-! ## Pairs -/

/-- A key that the reader gives back: it is trimmed, and has no `=`. -/
structure GoodKey (key : Chars) : Prop where
  nonempty : key ≠ []
  trimmed : trim key = key
  noEquals : '=' ∉ key

/-- The pairs with their separators. -/
def joinPairs (entries : List (Chars × Chars)) : Chars := [',', ' '].intercalate (entries.map pairText)

theorem joinPairs_cons (entry : Chars × Chars) (entries : List (Chars × Chars)) :
    joinPairs (entry :: entries) =
      pairText entry ++ (if entries = [] then [] else ',' :: ' ' :: joinPairs entries) := by
  cases entries with
  | nil =>
    rw [if_pos rfl, append_nil]
    exact intercalate_singleton
  | cons next entries =>
    rw [if_neg (cons_ne_nil next entries)]
    show [',', ' '].intercalate (pairText entry :: pairText next :: entries.map pairText) = _
    rw [intercalate_cons_cons, append_assoc]
    rfl

theorem begins_joinPairs (h : GoodKey entry.1) (entries : List (Chars × Chars)) :
    Begins (joinPairs (entry :: entries)) := by
  rw [joinPairs_cons]
  unfold pairText
  rw [append_assoc]
  exact (begins_of_trim_eq h.trimmed h.nonempty).append _

theorem afterValue_next (h : ∀ entry ∈ entries, GoodKey entry.1) :
    afterValue (if entries = [] then [] else ',' :: ' ' :: joinPairs entries) = joinPairs entries := by
  cases entries with
  | nil => rfl
  | cons entry entries =>
    rw [if_neg (cons_ne_nil entry entries)]
    exact (begins_joinPairs (h entry mem_cons_self) entries).trimStart

/-- The entries, put into a map one by one. -/
def insertAll (labels : LabelMap) (entries : List (Chars × Chars)) : LabelMap :=
  entries.foldl (fun labels entry => labels.insert entry.1 entry.2) labels

theorem parsePairs_cons (h : GoodKey entry.1) (fuel : Nat) (rest : Chars) (labels : LabelMap) :
    parsePairs std (fuel + 1) (pairText entry ++ rest) labels =
      parsePairs std fuel (afterValue rest) (labels.insert entry.1 entry.2) := by
  have hkey : ∀ c ∈ entry.1, decide (c ≠ '=') = true := by
    intro c hc
    rw [decide_eq_true_eq]
    exact fun heq => h.noEquals (heq ▸ hc)
  have htext : pairText entry ++ rest =
      entry.1 ++ '=' :: '"' :: (escapeLabelValue entry.2 ++ '"' :: rest) := by
    unfold pairText
    simp only [append_assoc, cons_append, nil_append]
  have htake : (pairText entry ++ rest).takeWhile (· ≠ '=') = entry.1 := by
    rw [htext, takeWhile_append_of_pos hkey, takeWhile_cons_of_neg (by decide), append_nil]
  have hdrop : (pairText entry ++ rest).dropWhile (· ≠ '=') =
      '=' :: '"' :: (escapeLabelValue entry.2 ++ '"' :: rest) := by
    rw [htext, dropWhile_append_of_pos hkey, dropWhile_cons_of_neg (by decide)]
  have hne : ¬ (pairText entry ++ rest).isEmpty = true := by
    rw [htext, List.isEmpty_iff]
    exact fun heq => h.nonempty (append_eq_nil_iff.1 heq).1
  have heq : ¬ (!(pairText entry ++ rest).contains '=') = true := by
    rw [htext, Bool.not_eq_true', contains_eq_mem, decide_eq_false_iff_not, not_not]
    exact mem_append_right _ mem_cons_self
  have hnonempty : ¬ entry.1.isEmpty = true := by
    rw [List.isEmpty_iff]
    exact h.nonempty
  have hvalue : parseValue (trimStart ('"' :: (escapeLabelValue entry.2 ++ '"' :: rest))) =
      .ok (entry.2, rest) :=
    parseQuotedValue_escape [] entry.2 rest
  rw [parsePairs.eq_2, if_neg hne, if_neg heq, htake, hdrop]
  rw [h.trimmed, if_neg hnonempty, drop_one, tail_cons, hvalue]
  rfl

theorem parsePairs_pairs (h : ∀ entry ∈ entries, GoodKey entry.1) {fuel : Nat}
    (hfuel : entries.length ≤ fuel) (labels : LabelMap) :
    parsePairs std fuel (joinPairs entries) labels = .ok (insertAll labels entries) := by
  induction entries generalizing fuel labels with
  | nil => cases fuel <;> rfl
  | cons entry entries ih =>
    obtain ⟨hentry, hentries⟩ := forall_mem_cons.1 h
    cases fuel with
    | zero => exact absurd hfuel (Nat.not_succ_le_zero _)
    | succ fuel =>
      rw [joinPairs_cons, parsePairs_cons hentry, afterValue_next hentries]
      exact ih hentries (Nat.le_of_succ_le_succ hfuel) _

/-! ## Headers -/

theorem length_le_joinPairs (entries : List (Chars × Chars)) : entries.length ≤ (joinPairs entries).length := by
  induction entries with
  | nil => exact Nat.zero_le _
  | cons entry entries ih =>
    have hpair : 0 < (pairText entry).length := by
      unfold pairText
      simp only [length_append, length_cons]
      omega
    rw [joinPairs_cons, length_append, length_cons]
    by_cases hnil : entries = []
    · rw [if_pos hnil, hnil, length_nil]
      omega
    · rw [if_neg hnil, length_cons, length_cons]
      omega

theorem ends_joinPairs (hne : entries ≠ []) : Ends (joinPairs entries) := by
  induction entries with
  | nil => exact absurd rfl hne
  | cons entry entries ih =>
    rw [joinPairs_cons]
    by_cases hnil : entries = []
    · rw [if_pos hnil, append_nil]
      exact .append _ (.append ['=', '"'] (.concat _ (by decide)))
    · rw [if_neg hnil]
      exact .append _ (.append [',', ' '] (ih hnil))

theorem trim_joinPairs (h : ∀ entry ∈ entries, GoodKey entry.1) :
    trim (joinPairs entries) = joinPairs entries := by
  cases entries with
  | nil => rfl
  | cons entry entries =>
    exact trim_of_ends (begins_joinPairs (h entry mem_cons_self) entries)
      (ends_joinPairs (cons_ne_nil entry entries))

/-- The text of a header with these entries. -/
def headerText (entries : List (Chars × Chars)) : Chars := '{' :: (joinPairs entries ++ ['}'])

theorem trim_headerText (entries : List (Chars × Chars)) : trim (headerText entries) = headerText entries :=
  trim_of_ends (.cons (by decide) _) (.concat ('{' :: joinPairs entries) (by decide))

theorem parseLabelBlock_headerText (h : ∀ entry ∈ entries, GoodKey entry.1) :
    parseLabelBlock std (headerText entries) = .ok (insertAll ∅ entries) := by
  have hinner : ((headerText entries).rdropWhile (· ≠ '}')).dropLast.drop 1 = joinPairs entries := by
    have hlast : headerText entries = ('{' :: joinPairs entries) ++ ['}'] := rfl
    rw [hlast, rdropWhile_concat_neg _ _ _ (by decide), dropLast_concat]
    rfl
  have hclose : ¬ (!(headerText entries).contains '}') = true := by
    rw [Bool.not_eq_true', contains_eq_mem, decide_eq_false_iff_not, not_not]
    exact mem_cons_of_mem _ (mem_append_right _ mem_cons_self)
  have htrim := trim_joinPairs h
  unfold parseLabelBlock
  rw [trim_headerText, if_neg (fun hne => hne rfl), if_neg hclose, hinner, htrim]
  cases entries with
  | nil => rfl
  | cons entry entries =>
    obtain ⟨c, rest, heq, -⟩ := begins_joinPairs (h entry mem_cons_self) entries
    have hne : ¬ (joinPairs (entry :: entries)).isEmpty = true := by
      rw [heq]
      exact Bool.false_ne_true
    rw [if_neg hne]
    unfold parseLabelPairs
    rw [htrim]
    exact parsePairs_pairs h (length_le_joinPairs _) ∅

theorem parseColumnHeader_headerText (h : ∀ entry ∈ entries, GoodKey entry.1) :
    parseColumnHeader std (headerText entries) =
      .ok ⟨(insertAll ∅ entries).lookup nameKey, (insertAll ∅ entries).erase nameKey⟩ := by
  unfold parseColumnHeader
  dsimp only
  rw [trim_headerText, parseLabelBlock_headerText h]
  rfl

/-! ## Label sets -/

section
variable {labels : LabelSet}
variable {entries : List (Chars × Chars)} {entry : Chars × Chars} {header : Chars}
  {headers : List Chars} {sets : List LabelSet}

/-- The value of a key among the entries. -/
def valueIn (entries : List (Chars × Chars)) (key : Chars) : Option Chars :=
  (entries.find? (·.1 = key)).map Prod.snd

theorem valueIn_eq_none {key : Chars} (h : ∀ entry ∈ entries, entry.1 ≠ key) :
    valueIn entries key = none := by
  unfold valueIn
  rw [Option.map_eq_none_iff, find?_eq_none]
  intro entry hentry
  rw [decide_eq_true_eq]
  exact h entry hentry

theorem valueIn_cons (entry : Chars × Chars) (entries : List (Chars × Chars)) (key : Chars) :
    valueIn (entry :: entries) key = if entry.1 = key then some entry.2 else valueIn entries key := by
  unfold valueIn
  rw [find?_cons]
  by_cases h : entry.1 = key
  · rw [if_pos h, decide_eq_true h]
    rfl
  · rw [if_neg h, decide_eq_false h]

theorem lookup_insertAll (h : entries.Pairwise fun a b => a.1 ≠ b.1) (labels : LabelMap)
    (key : Chars) :
    (insertAll labels entries).lookup key = (valueIn entries key).or (labels.lookup key) := by
  induction entries generalizing labels with
  | nil => rfl
  | cons entry entries ih =>
    obtain ⟨hentry, hentries⟩ := pairwise_cons.1 h
    show (insertAll (labels.insert entry.1 entry.2) entries).lookup key = _
    rw [ih hentries, valueIn_cons]
    by_cases hkey : entry.1 = key
    · subst hkey
      rw [if_pos rfl, AList.lookup_insert, valueIn_eq_none fun other hother => (hentry other hother).symm]
      rfl
    · rw [if_neg hkey, AList.lookup_insert_ne (Ne.symm hkey)]

theorem LabelSet.distinct (labels : LabelSet) : labels.entries.Pairwise fun a b => a.1 ≠ b.1 := by
  refine labels.ordered.imp fun {a b} h heq => ?_
  rw [heq] at h
  exact List.lt_irrefl _ h

theorem valueIn_of_mem (hdistinct : entries.Pairwise fun a b => a.1 ≠ b.1) (h : entry ∈ entries) :
    valueIn entries entry.1 = some entry.2 := by
  induction entries with
  | nil => cases h
  | cons first entries ih =>
    obtain ⟨hfirst, hentries⟩ := pairwise_cons.1 hdistinct
    rw [valueIn_cons]
    rcases mem_cons.1 h with rfl | h
    · rw [if_pos rfl]
    · rw [if_neg (hfirst entry h), ih hentries h]

theorem mem_of_headerEntries (h : entry ∈ headerEntries labels) : entry ∈ labels.entries := by
  rcases mem_append.1 h with h | h
  · obtain ⟨name, hname, rfl⟩ := mem_map.1 h
    rw [Option.mem_toList] at hname
    obtain ⟨found, hfound, rfl⟩ := Option.map_eq_some_iff.1 hname
    have hkey := find?_some hfound
    rw [decide_eq_true_eq] at hkey
    rw [← hkey]
    exact mem_of_find?_eq_some hfound
  · exact (mem_filter.1 h).1

theorem headerEntries_distinct : (headerEntries labels).Pairwise fun a b => a.1 ≠ b.1 := by
  refine pairwise_append.2 ⟨?_, labels.distinct.filter _, fun a ha b hb => ?_⟩
  · cases labels.get nameKey with
    | none => exact .nil
    | some name => exact pairwise_singleton _ _
  · obtain ⟨name, -, rfl⟩ := mem_map.1 ha
    have hne := (mem_filter.1 hb).2
    rw [decide_eq_true_eq] at hne
    exact hne.symm

theorem valueIn_headerEntries (key : Chars) : valueIn (headerEntries labels) key = labels.get key := by
  unfold headerEntries
  by_cases hkey : key = nameKey
  · subst hkey
    have hrest : valueIn (labels.entries.filter (·.1 ≠ nameKey)) nameKey = none := by
      refine valueIn_eq_none fun entry hentry => ?_
      have hne := (mem_filter.1 hentry).2
      rwa [decide_eq_true_eq] at hne
    cases labels.get nameKey with
    | none => exact hrest
    | some name =>
      show valueIn ((nameKey, name) :: _) nameKey = some name
      rw [valueIn_cons, if_pos rfl]
  · have hrest : valueIn (labels.entries.filter (·.1 ≠ nameKey)) key = labels.get key := by
      unfold valueIn LabelSet.get
      rw [find?_filter]
      congr 2
      funext entry
      rw [decide_eq_decide, decide_eq_true_eq, decide_eq_true_eq]
      exact ⟨fun h => h.2, fun h => ⟨fun heq => hkey (h.symm.trans heq), h⟩⟩
    cases labels.get nameKey with
    | none => exact hrest
    | some name =>
      show valueIn ((nameKey, name) :: _) key = _
      rw [valueIn_cons, if_neg (Ne.symm hkey)]
      exact hrest

theorem checkLabel_noEquals (h : checkLabel std entry = .ok ()) : '=' ∉ entry.1 := by
  obtain ⟨-, h⟩ := check_ok h
  obtain ⟨-, h⟩ := check_ok h
  obtain ⟨hnot, -⟩ := check_ok h
  rwa [contains_eq_mem, decide_eq_true_eq] at hnot

theorem columnHeader_ok (h : columnHeader std labels = .ok header) :
    header = headerText (headerEntries labels) ∧ ∀ entry ∈ labels.entries, '=' ∉ entry.1 := by
  obtain ⟨_, hcheck, h⟩ := bind_ok h
  refine ⟨(Except.ok.inj h).symm, fun entry hentry => ?_⟩
  exact checkLabel_noEquals (forM_ok hcheck entry hentry)

/-- The header gives back the name and the labels of the series. -/
def SameSeries (labels : LabelSet) (column : ParsedColumnHeader) : Prop :=
  column.metricName = labels.get nameKey ∧
    ∀ key, column.labels.lookup key = if key = nameKey then none else labels.get key

/-- A header with trimmed keys is read back. -/
theorem parseColumnHeader_sameSeries (h : columnHeader std labels = .ok header)
    (hkeys : ∀ entry ∈ labels.entries, entry.1 ≠ [] ∧ trim entry.1 = entry.1) :
    ∃ column, parseColumnHeader std header = .ok column ∧ SameSeries labels column := by
  obtain ⟨rfl, hequals⟩ := columnHeader_ok h
  have hgood : ∀ entry ∈ headerEntries labels, GoodKey entry.1 := by
    intro entry hentry
    have hmem := mem_of_headerEntries hentry
    exact ⟨(hkeys entry hmem).1, (hkeys entry hmem).2, hequals entry hmem⟩
  have hlookup : ∀ key, (insertAll ∅ (headerEntries labels)).lookup key = labels.get key := by
    intro key
    rw [lookup_insertAll headerEntries_distinct, valueIn_headerEntries, AList.lookup_empty, Option.or_none]
  refine ⟨_, parseColumnHeader_headerText hgood, hlookup nameKey, fun key => ?_⟩
  by_cases hkey : key = nameKey
  · rw [if_pos hkey, hkey]
    exact AList.lookup_erase nameKey _
  · rw [if_neg hkey, ← hlookup key]
    exact AList.lookup_erase_ne hkey

/-- What is read back has trimmed keys. -/
theorem trimmed_of_sameSeries {column : ParsedColumnHeader}
    (h : parseColumnHeader std header = .ok column) (hsame : SameSeries labels column) :
    ∀ entry ∈ labels.entries, trim entry.1 = entry.1 := by
  intro entry hentry
  by_cases hname : entry.1 = nameKey
  · rw [hname]
    decide
  · refine parseColumnHeader_keys h entry.1 (AList.lookup_isSome.1 ?_)
    rw [hsame.2, if_neg hname, show labels.get _ = _ from valueIn_of_mem labels.distinct hentry]
    rfl

/-- The headers of a row, read back one by one. -/
theorem columns_of_trimmed (hheaders : sets.mapM (columnHeader std) = .ok headers)
    (hkeys : ∀ labels ∈ sets, ∀ entry ∈ labels.entries, entry.1 ≠ [] ∧ trim entry.1 = entry.1) :
    ∃ columns, headers.mapM (parseColumnHeader std) = .ok columns ∧ List.Forall₂ SameSeries sets columns := by
  have hall := mapM_ok_forall₂ hheaders
  clear hheaders
  induction hall with
  | nil => exact ⟨[], rfl, .nil⟩
  | cons hheader _ ih =>
    obtain ⟨hset, hsets⟩ := forall_mem_cons.1 hkeys
    obtain ⟨column, hcolumn, hsame⟩ := parseColumnHeader_sameSeries hheader hset
    obtain ⟨columns, hcolumns, hrest⟩ := ih hsets
    refine ⟨column :: columns, ?_, .cons hsame hrest⟩
    rw [mapM_cons, hcolumn, hcolumns]
    rfl

theorem trimmed_of_columns {columns : List ParsedColumnHeader}
    (hheaders : sets.mapM (columnHeader std) = .ok headers)
    (hcolumns : headers.mapM (parseColumnHeader std) = .ok columns)
    (hsame : List.Forall₂ SameSeries sets columns) :
    ∀ labels ∈ sets, ∀ entry ∈ labels.entries, trim entry.1 = entry.1 := by
  have hall := mapM_ok_forall₂ hheaders
  clear hheaders
  induction hall generalizing columns with
  | nil => exact fun labels hlabels => absurd hlabels not_mem_nil
  | cons _ _ ih =>
    rw [mapM_cons] at hcolumns
    obtain ⟨column, hcolumn, hcolumns⟩ := bind_ok hcolumns
    obtain ⟨rest, hrest, hcolumns⟩ := bind_ok hcolumns
    cases hcolumns
    obtain ⟨hfirst, hothers⟩ := forall₂_cons.1 hsame
    exact forall_mem_cons.2 ⟨trimmed_of_sameSeries hcolumn hfirst, ih hrest hothers⟩

end

/-- The header row gives back its series exactly when no label key has white space at an end. -/
theorem parseHeaderRow_iff (std : StdText F) (sets : List LabelSet) (row : Chars)
    (hkeys : ∀ labels ∈ sets, ∀ entry ∈ labels.entries, entry.1 ≠ []) (hrow : headerRow std sets = .ok row) :
    (∃ first columns, (splitCsvHeaderFields row).mapM (parseColumnHeader std) = .ok (first :: columns) ∧
        List.Forall₂ SameSeries sets columns) ↔
      ∀ labels ∈ sets, ∀ entry ∈ labels.entries, trim entry.1 = entry.1 := by
  obtain ⟨headers, hheaders, hrow⟩ := bind_ok hrow
  cases hrow
  rw [splitCsvHeaderFields_row, mapM_cons]
  constructor
  · rintro ⟨first, columns, hread, hsame⟩
    obtain ⟨_, -, hread⟩ := bind_ok hread
    obtain ⟨_, hcolumns, hread⟩ := bind_ok hread
    cases hread
    exact trimmed_of_columns hheaders hcolumns hsame
  · intro htrim
    obtain ⟨columns, hcolumns, hsame⟩ := columns_of_trimmed hheaders
      fun labels hlabels entry hentry => ⟨hkeys labels hlabels entry hentry, htrim labels hlabels entry hentry⟩
    obtain ⟨first, hfirst⟩ : ∃ first, parseColumnHeader std timestampText = .ok first := ⟨_, rfl⟩
    refine ⟨first, columns, ?_, hsame⟩
    rw [hfirst, hcolumns]
    rfl

/-- Two series, with delimiters in keys and values. -/
def delimiterSets : List LabelSet :=
  [⟨[("__name__".toList, "up".toList), ("a, b".toList, "x=\"\\".toList)], by decide⟩,
    ⟨[("\x7bk\x7d".toList, ", \x7d".toList)], by decide⟩]

theorem parseHeaderRow_delimiters :
    ∃ first columns, (splitCsvHeaderFields ("timestamp,\"\x7b__name__=\"\"up\"\", a, b=\"\"x=\\\"\"\\\\\"\"\x7d\"," ++
        "\"\x7b\x7bk\x7d=\"\", \x7d\"\"\x7d\"").toList).mapM (parseColumnHeader decimalText) =
          .ok (first :: columns) ∧
      List.Forall₂ SameSeries delimiterSets columns :=
  (parseHeaderRow_iff decimalText delimiterSets _ (by decide) (ok_of_toOption (by decide))).2 (by decide)

/-- A key with a blank in front comes back without it. -/
theorem parseHeaderRow_blank :
    headerRow decimalText [⟨[(" a".toList, "v".toList)], by decide⟩] =
        .ok "timestamp,\"\x7b a=\"\"v\"\"\x7d\"".toList ∧
      ((parseHeaderRow decimalText "timestamp,\"\x7b a=\"\"v\"\"\x7d\"".toList).toOption.map
          fun columns => columns.map fun column => (column.metricName, column.labels.entries.map Sigma.fst)) =
        some [(some "timestamp".toList, []), (none, ["a".toList])] :=
  ⟨ok_of_toOption (by decide), by decide⟩

end Sonda.Csv
