import Sonda.Framework.Fallible
import Sonda.Impl.Acquire.CsvOut
import Sonda.Proof.Generator.GapWindows

/-!
# The windows of a captured column

A window that `verifyWindow` accepts has the rows of its run and no others
(`verifyWindow_rows`): the ticks of a window are a run, so the ends of the absent rows and
their neighbours decide. One window per maximal run of absent rows covers exactly these
(`gapWindowsFrom_covered`, `gapWindowsFor_covered`).
-/

namespace Sonda.Csv

open Framework
open Config (StdParse)
open Sonda.Schedule (SondaError)

variable {F : Type} {std : StdParse} {stepSecs : ℚ} {window : GapWindowConfig}
  {first last rowCount : Nat}

/-! ## One window -/

theorem verifyWindow_ok (h : verifyWindow std window first last rowCount stepSecs = .ok ()) :
    ∃ resolved, window.resolve std = .ok resolved ∧
      tickInWindow first stepSecs (windowSecs resolved) = true ∧
      tickInWindow last stepSecs (windowSecs resolved) = true ∧
      (0 < first → ¬ tickInWindow (first - 1) stepSecs (windowSecs resolved) = true) ∧
      (last + 1 < rowCount → ¬ tickInWindow (last + 1) stepSecs (windowSecs resolved) = true) := by
  obtain ⟨resolved, hresolved, h⟩ := bind_ok h
  obtain ⟨hfirst, h⟩ := check_ok h
  obtain ⟨hlast, h⟩ := check_ok h
  obtain ⟨hbefore, h⟩ := check_ok h
  obtain ⟨hafter, -⟩ := check_ok h
  rw [Bool.not_eq_true', Bool.not_eq_false] at hfirst hlast
  rw [Bool.and_eq_true, decide_eq_true_eq, not_and] at hbefore hafter
  exact ⟨resolved, hresolved, hfirst, hlast, hbefore, hafter⟩

/-- An accepted window has the rows from the first to the last. -/
theorem verifyWindow_rows (hstep : 0 < stepSecs)
    (h : verifyWindow std window first last rowCount stepSecs = .ok ()) :
    ∃ resolved, window.resolve std = .ok resolved ∧ ∀ row < rowCount,
      tickInWindow row stepSecs (windowSecs resolved) = true ↔ first ≤ row ∧ row ≤ last := by
  obtain ⟨resolved, hresolved, hfirst, hlast, hbefore, hafter⟩ := verifyWindow_ok h
  refine ⟨resolved, hresolved, fun row hrow => ⟨fun hin => ⟨?_, ?_⟩, fun hrun => ?_⟩⟩
  · by_contra hlt
    exact hbefore (by omega) (tickInWindow_between hstep hin hfirst (by omega) (by omega))
  · by_contra hlt
    exact hafter (by omega) (tickInWindow_between hstep hlast hin (by omega) (by omega))
  · exact tickInWindow_between hstep hfirst hlast hrun.1 hrun.2

/-! ## The runs of absent rows -/

section
variable {values : List (Option F)} {windows : List GapWindowConfig} {row fuel : Nat}

/-- The row has no value. -/
def Absent (values : List (Option F)) (row : Nat) : Prop := values[row]? = some none

theorem Absent.lt (h : Absent values row) : row < values.length :=
  (List.getElem?_eq_some_iff.1 h).1

/-- The rows that are skipped are absent, and the next one is not. -/
theorem skipAbsent_spec (values : List (Option F)) (hfuel : values.length ≤ fuel + row)
    (hrow : row ≤ values.length) :
    row ≤ skipAbsent values fuel row ∧ skipAbsent values fuel row ≤ values.length ∧
      (∀ r, row ≤ r → r < skipAbsent values fuel row → Absent values r) ∧
      ¬ Absent values (skipAbsent values fuel row) := by
  induction fuel generalizing row with
  | zero =>
    show row ≤ row ∧ row ≤ values.length ∧ (∀ r, row ≤ r → r < row → Absent values r) ∧ ¬ Absent values row
    exact ⟨le_refl row, hrow, fun r _ _ => by omega, fun habsent => by have := habsent.lt; omega⟩
  | succ fuel ih =>
    unfold skipAbsent
    split
    · next habsent =>
      have hlt := Absent.lt habsent
      obtain ⟨hle, hlen, hall, hnot⟩ := ih (by omega) hlt
      refine ⟨Nat.le_of_succ_le hle, hlen, fun r hr hpast => ?_, hnot⟩
      by_cases heq : r = row
      · rw [heq]
        exact habsent
      · exact hall r (Nat.lt_of_le_of_ne hr (Ne.symm heq)) hpast
    · next hnot => exact ⟨le_refl row, hrow, fun r _ _ => by omega, hnot⟩

/-- The windows from a row on cover the absent rows from there on. -/
theorem gapWindowsFrom_covered (hstep : 0 < stepSecs) (hfuel : values.length < fuel + row)
    (h : gapWindowsFrom std values stepSecs fuel row = .ok windows) :
    ∃ resolved, windows.mapM (GapWindowConfig.resolve std) = .ok resolved ∧ ∀ r < values.length,
      covered (resolved.map windowSecs) stepSecs r = true ↔ row ≤ r ∧ Absent values r := by
  induction fuel generalizing row windows with
  | zero =>
    cases h
    refine ⟨[], rfl, fun r hr => iff_of_false Bool.false_ne_true fun hrow => ?_⟩
    omega
  | succ fuel ih =>
    unfold gapWindowsFrom at h
    split at h
    · next hend =>
      cases h
      refine ⟨[], rfl, fun r hr => iff_of_false Bool.false_ne_true fun hrow => ?_⟩
      have hlen := List.getElem?_eq_none_iff.1 hend
      omega
    · next v hpresent =>
      obtain ⟨resolved, hresolved, hcovered⟩ := ih (by omega) h
      refine ⟨resolved, hresolved, fun r hr => (hcovered r hr).trans ⟨fun hr' => ⟨by omega, hr'.2⟩, ?_⟩⟩
      rintro ⟨hrow, habsent⟩
      refine ⟨?_, habsent⟩
      have hne : r ≠ row := by
        intro heq
        rw [heq] at habsent
        cases hpresent.symm.trans habsent
      omega
    · next habsent =>
      have hlt := Absent.lt habsent
      obtain ⟨hle, hlen, hall, hnot⟩ :=
        skipAbsent_spec values (Nat.le_add_right values.length row) hlt.le
      generalize skipAbsent values values.length row = past at h hle hlen hall hnot
      have hpast : row < past := lt_of_le_of_ne hle fun heq => hnot (heq ▸ habsent)
      obtain ⟨_, hverify, h⟩ := bind_ok h
      obtain ⟨rest, hrest, h⟩ := bind_ok h
      cases h
      obtain ⟨pair, hpair, hrows⟩ := verifyWindow_rows hstep hverify
      obtain ⟨resolved, hresolved, hcovered⟩ := ih (by omega) hrest
      refine ⟨pair :: resolved, by rw [List.mapM_cons, hpair, hresolved]; rfl, fun r hr => ?_⟩
      rw [List.map_cons, covered_cons, Bool.or_eq_true, hrows r hr, hcovered r hr]
      constructor
      · rintro (hin | hin)
        · exact ⟨hin.1, hall r hin.1 (by omega)⟩
        · exact ⟨by omega, hin.2⟩
      · rintro ⟨hr', habsent'⟩
        by_cases hin : r < past
        · exact .inl ⟨hr', by omega⟩
        · exact .inr ⟨by omega, habsent'⟩

/-- The windows of a column cover its absent rows. -/
theorem gapWindowsFor_covered (hstep : 0 < stepSecs)
    (h : gapWindowsFor std values stepSecs = .ok windows) :
    ∃ resolved, windows.mapM (GapWindowConfig.resolve std) = .ok resolved ∧ ∀ row < values.length,
      covered (resolved.map windowSecs) stepSecs row = true ↔ Absent values row := by
  obtain ⟨resolved, hresolved, hcovered⟩ := gapWindowsFrom_covered hstep (by omega) h
  exact ⟨resolved, hresolved, fun row hrow => (hcovered row hrow).trans (and_iff_right (Nat.zero_le row))⟩

end

end Sonda.Csv
