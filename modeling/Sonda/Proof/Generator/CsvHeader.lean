import Mathlib.Data.List.TakeWhile
import Sonda.Framework.Fallible
import Sonda.Impl.Generator.CsvHeader

/-!
# Reading column headers

Trimming (`trim_trim`, `begins_of_trim`), the values in quotes (`parseQuotedValue`), and
the keys that a label block gives: they are trimmed, whatever the text was
(`parseColumnHeader_keys`).
-/

namespace Sonda.Csv

open Framework List
open Sonda.Schedule (SondaError)

variable {F : Type} {std : StdText F}
variable {s : Chars} {c : Char}

/-! ## Trimming -/

/-- A text that starts with something else than white space. -/
def Begins (s : Chars) : Prop := ∃ c rest, s = c :: rest ∧ isWhitespace c = false

theorem Begins.cons (h : isWhitespace c = false) (rest : Chars) : Begins (c :: rest) :=
  ⟨c, rest, rfl, h⟩

theorem Begins.append (h : Begins s) (t : Chars) : Begins (s ++ t) := by
  obtain ⟨c, rest, rfl, hc⟩ := h
  exact ⟨c, rest ++ t, rfl, hc⟩

theorem Begins.trimStart (h : Begins s) : trimStart s = s := by
  obtain ⟨c, rest, rfl, hc⟩ := h
  exact dropWhile_cons_of_neg (by rw [hc]; exact Bool.false_ne_true)

theorem begins_trimStart (s : Chars) : trimStart s = [] ∨ Begins (trimStart s) := by
  rcases hs : trimStart s with _ | ⟨c, rest⟩
  · exact .inl rfl
  · refine .inr ⟨c, rest, rfl, ?_⟩
    have hdrop : (dropWhile isWhitespace s).head? = some c := by
      rw [show dropWhile isWhitespace s = c :: rest from hs]
      rfl
    have hnot := head?_dropWhile_not isWhitespace s
    rw [hdrop] at hnot
    exact hnot

/-- What is trimmed begins with no white space. -/
theorem begins_of_trim (h : trim s ≠ []) : Begins (trim s) := by
  obtain ⟨t, ht⟩ := rdropWhile_prefix isWhitespace (trimStart s)
  rcases begins_trimStart s with hnil | ⟨c, rest, heq, hc⟩
  · unfold trim at h
    rw [hnil] at h
    exact absurd rfl h
  · unfold trim at h ⊢
    rw [heq] at ht h ⊢
    obtain ⟨d, ds, hd⟩ := exists_cons_of_ne_nil h
    rw [hd] at ht ⊢
    obtain ⟨rfl, -⟩ := cons.inj ht
    exact .cons hc ds

theorem trim_trim (s : Chars) : trim (trim s) = trim s := by
  by_cases hnil : trim s = []
  · rw [hnil]
    rfl
  · have hstart : trimStart (trim s) = trim s := (begins_of_trim hnil).trimStart
    show (trimStart (trim s)).rdropWhile isWhitespace = trim s
    rw [hstart]
    exact rdropWhile_idempotent _ _

/-- A text that ends with something else than white space. -/
def Ends (s : Chars) : Prop := ∃ lead c, s = lead ++ [c] ∧ isWhitespace c = false

theorem Ends.concat (lead : Chars) (h : isWhitespace c = false) : Ends (lead ++ [c]) :=
  ⟨lead, c, rfl, h⟩

theorem Ends.append (s : Chars) {t : Chars} (h : Ends t) : Ends (s ++ t) := by
  obtain ⟨lead, c, rfl, hc⟩ := h
  exact ⟨s ++ lead, c, (append_assoc s lead [c]).symm, hc⟩

theorem Ends.flatMap {α : Type} {l : List α} {f : α → Chars} (hs : Ends s) (h : ∀ a ∈ l, Ends (f a)) :
    Ends (s ++ l.flatMap f) := by
  induction l generalizing s with
  | nil => rwa [flatMap_nil, append_nil]
  | cons a l ih =>
    obtain ⟨ha, hl⟩ := forall_mem_cons.1 h
    rw [flatMap_cons, ← append_assoc]
    exact ih (ha.append s) hl

/-- A text with no white space at its ends stays as it is. -/
theorem trim_of_ends (hstart : Begins s) (hend : Ends s) : trim s = s := by
  obtain ⟨lead, c, heq, hc⟩ := hend
  show (trimStart s).rdropWhile isWhitespace = s
  rw [hstart.trimStart, heq]
  exact rdropWhile_concat_neg _ _ _ (by rw [hc]; exact Bool.false_ne_true)

/-- What is trimmed starts as the text does. -/
theorem trim_cons (hc : isWhitespace c = false) (rest : Chars) :
    ∃ rest', trim (c :: rest) = c :: rest' := by
  have hstart : trimStart (c :: rest) = c :: rest := (Begins.cons hc rest).trimStart
  have hlead : trim (c :: rest) <+: c :: rest := by
    unfold trim
    rw [hstart]
    exact rdropWhile_prefix _ _
  rcases htrim : trim (c :: rest) with _ | ⟨d, rest'⟩
  · unfold trim at htrim
    rw [hstart, rdropWhile_eq_nil_iff] at htrim
    exact absurd (htrim c mem_cons_self) (by rw [hc]; exact Bool.false_ne_true)
  · rw [htrim] at hlead
    rw [(cons_prefix_cons.1 hlead).1]
    exact ⟨rest', rfl⟩

theorem begins_of_trim_eq (h : trim s = s) (hne : s ≠ []) : Begins s := by
  have hb := begins_of_trim (show trim s ≠ [] by rwa [h])
  rwa [h] at hb

/-! ## Keys -/

theorem parsePairs_keys {fuel : Nat} {remaining : Chars} {labels labels' : LabelMap}
    (hkeys : ∀ key ∈ labels, trim key = key) (h : parsePairs std fuel remaining labels = .ok labels') :
    ∀ key ∈ labels', trim key = key := by
  induction fuel generalizing remaining labels with
  | zero =>
    cases h
    exact hkeys
  | succ fuel ih =>
    unfold parsePairs at h
    split at h
    · cases h
      exact hkeys
    · obtain ⟨-, h⟩ := check_ok h
      obtain ⟨-, h⟩ := check_ok h
      obtain ⟨value, -, h⟩ := bind_ok h
      refine ih (fun key hkey => ?_) h
      rcases (AList.mem_insert labels).1 hkey with rfl | hkey
      · exact trim_trim _
      · exact hkeys key hkey

theorem parseLabelBlock_keys {block : Chars} {labels : LabelMap} (h : parseLabelBlock std block = .ok labels) :
    ∀ key ∈ labels, trim key = key := by
  have hempty : ∀ key ∈ (∅ : LabelMap), trim key = key := fun key hkey => absurd hkey (AList.notMem_empty key)
  obtain ⟨-, h⟩ := check_ok h
  obtain ⟨-, h⟩ := check_ok h
  dsimp only at h
  split at h
  · cases h
    exact hempty
  · exact parsePairs_keys hempty h

/-- The keys of a header are trimmed. -/
theorem parseColumnHeader_keys {header : Chars} {column : ParsedColumnHeader}
    (h : parseColumnHeader std header = .ok column) : ∀ key ∈ column.labels, trim key = key := by
  unfold parseColumnHeader at h
  dsimp only at h
  split at h
  · cases h
    exact fun key hkey => absurd hkey (AList.notMem_empty key)
  · split at h
    · cases h
      exact fun key hkey => absurd hkey (AList.notMem_empty key)
    · split at h
      · obtain ⟨labels, hlabels, h⟩ := bind_ok h
        cases h
        exact fun key hkey => parseLabelBlock_keys hlabels key (AList.mem_erase.1 hkey).2
      · obtain ⟨labels, hlabels, h⟩ := bind_ok h
        cases h
        exact parseLabelBlock_keys hlabels

end Sonda.Csv
