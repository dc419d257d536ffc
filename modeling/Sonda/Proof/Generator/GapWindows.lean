import Mathlib.Algebra.Order.Archimedean.Basic
import Mathlib.Data.Rat.Cast.Order
import Mathlib.Order.Bounds.Basic
import Mathlib.Tactic.Linarith
import Sonda.Impl.Generator.CsvReplay

/-!
# Blank rows and gap windows

The ticks of one window are a run (`tickInWindow_between`), and the binary search finds
its end (`pastWindow_spec`). The walk over the windows in the order of their starts never
passes a tick that no window has: what it returns is the first one (`FirstOutside`,
`walkWindows_spec`, `firstUncoveredTick_spec`). With it the check accepts exactly the
captures whose silence is the declared one (`crossCheckGapWindows_ok_iff`).
-/

namespace Sonda.Csv

open List

open Sonda.Schedule (SondaError)

/-! ## One window -/

section
variable {stepSecs : ℚ} {window : Window} {t : Nat}

theorem tickInWindow_iff :
    tickInWindow t stepSecs window = true ↔ window.1 ≤ t * stepSecs ∧ t * stepSecs < window.2 := by
  unfold tickInWindow
  rw [Bool.and_eq_true, decide_eq_true_eq, decide_eq_true_eq]

theorem tick_mono (hstep : 0 < stepSecs) {s : Nat} (h : s ≤ t) : (s : ℚ) * stepSecs ≤ t * stepSecs :=
  mul_le_mul_of_nonneg_right (Nat.cast_le.2 h) hstep.le

theorem tickInWindow_between (hstep : 0 < stepSecs) {a b : Nat}
    (ha : tickInWindow a stepSecs window = true) (hb : tickInWindow b stepSecs window = true)
    (hat : a ≤ t) (htb : t ≤ b) : tickInWindow t stepSecs window = true := by
  rw [tickInWindow_iff] at ha hb ⊢
  exact ⟨ha.1.trans (tick_mono hstep hat), (tick_mono hstep htb).trans_lt hb.2⟩

/-- A tick at or behind the start of a window and not in it is behind its end, with every later one. -/
theorem not_tickInWindow_of_past (hstep : 0 < stepSecs) {u : Nat} (hstart : window.1 ≤ t * stepSecs)
    (ht : ¬ tickInWindow t stepSecs window = true) (htu : t ≤ u) :
    ¬ tickInWindow u stepSecs window = true := by
  rw [tickInWindow_iff, not_and, not_lt] at ht
  rw [tickInWindow_iff]
  intro hu
  exact absurd hu.2 (not_lt.2 ((ht hstart).trans (tick_mono hstep htu)))

/-- The search ends at the first tick past the window: the ends close on it. -/
theorem pastWindow_spec {fuel lo hi : Nat} (hfuel : hi - lo ≤ fuel) (hlt : lo < hi)
    (hlo : tickInWindow lo stepSecs window = true) (hhi : ¬ tickInWindow hi stepSecs window = true) :
    ∃ past, pastWindow stepSecs window fuel lo hi = past + 1 ∧ lo ≤ past ∧ past + 1 ≤ hi ∧
      tickInWindow past stepSecs window = true ∧ ¬ tickInWindow (past + 1) stepSecs window = true := by
  induction fuel generalizing lo hi with
  | zero => omega
  | succ fuel ih =>
    unfold pastWindow
    by_cases hfar : 1 < hi - lo
    · rw [if_pos hfar]
      by_cases hmid : tickInWindow (lo + (hi - lo) / 2) stepSecs window = true
      · rw [if_pos hmid]
        obtain ⟨past, heq, hle, hrest⟩ := ih (by omega) (by omega) hmid hhi
        exact ⟨past, heq, by omega, hrest⟩
      · rw [if_neg hmid]
        obtain ⟨past, heq, hle, hpast, hrest⟩ := ih (by omega) (by omega) hlo hmid
        exact ⟨past, heq, hle, by omega, hrest⟩
    · rw [if_neg hfar]
      have hnext : hi = lo + 1 := by omega
      refine ⟨lo, hnext, le_refl lo, by omega, hlo, ?_⟩
      rwa [← hnext]

end

/-! ## The walk -/

/-- The first of the ticks from `start` up to `last` that `p` does not hold of, if there is one. -/
def FirstOutside (p : Nat → Bool) (start last : Nat) : Option Nat → Prop
  | none => ∀ t, start ≤ t → t ≤ last → p t = true
  | some first => (start ≤ first ∧ first ≤ last ∧ p first = false) ∧
      ∀ t, start ≤ t → t < first → p t = true

theorem FirstOutside.extend {p q : Nat → Bool} {start mid last : Nat} {r : Option Nat}
    (h : FirstOutside p mid last r) (hle : start ≤ mid) (hbefore : ∀ t, start ≤ t → t < mid → q t = true)
    (hsame : ∀ t, mid ≤ t → q t = p t) : FirstOutside q start last r := by
  cases r with
  | none =>
    intro t hstart hlast
    by_cases hmid : t < mid
    · exact hbefore t hstart hmid
    · rw [hsame t (by omega)]
      exact h t (by omega) hlast
  | some first =>
    obtain ⟨⟨hfirst, hlast, hout⟩, hin⟩ := h
    refine ⟨⟨by omega, hlast, by rwa [hsame first hfirst]⟩, fun t hstart ht => ?_⟩
    by_cases hmid : t < mid
    · exact hbefore t hstart hmid
    · rw [hsame t (by omega)]
      exact hin t (by omega) ht

section
variable {stepSecs : ℚ} {last : Nat} {windows : List Window} {t : Nat} {window : Window}

theorem covered_cons (window : Window) (windows : List Window) (t : Nat) :
    covered (window :: windows) stepSecs t = (tickInWindow t stepSecs window || covered windows stepSecs t) :=
  any_cons

theorem covered_cons_of_not (windows : List Window) (h : ¬ tickInWindow t stepSecs window = true) :
    covered (window :: windows) stepSecs t = covered windows stepSecs t := by
  rw [covered_cons, Bool.eq_false_iff.2 h, Bool.false_or]

/-- No window has a tick before its start. -/
theorem covered_of_before (h : ∀ w ∈ windows, t * stepSecs < w.1) :
    covered windows stepSecs t = false := by
  rw [Bool.eq_false_iff]
  intro hcovered
  obtain ⟨w, hw, hin⟩ := any_eq_true.1 hcovered
  exact absurd (tickInWindow_iff.1 hin).1 (not_le.2 (h w hw))

theorem walkWindows_spec (hstep : 0 < stepSecs) (hsorted : windows.Pairwise startsBefore)
    {cursor : Nat} (hcursor : cursor ≤ last) :
    FirstOutside (covered windows stepSecs) cursor last (walkWindows stepSecs last cursor windows) := by
  induction windows generalizing cursor with
  | nil =>
    unfold walkWindows
    rw [if_pos hcursor]
    exact ⟨⟨le_refl cursor, hcursor, rfl⟩, fun t _ _ => by omega⟩
  | cons window windows ih =>
    obtain ⟨hfirst, hrest⟩ := pairwise_cons.1 hsorted
    unfold walkWindows
    by_cases hbefore : (cursor : ℚ) * stepSecs < window.1
    · -- The later windows start no earlier than this one.
      rw [if_pos hbefore]
      refine ⟨⟨le_refl cursor, hcursor, covered_of_before ?_⟩, fun t _ _ => by omega⟩
      intro w hw
      rcases mem_cons.1 hw with rfl | hw
      · exact hbefore
      · exact hbefore.trans_le (hfirst w hw)
    · rw [if_neg hbefore]
      have hstart : window.1 ≤ (cursor : ℚ) * stepSecs := not_lt.1 hbefore
      by_cases hin : tickInWindow cursor stepSecs window = true
      · rw [if_pos hin]
        by_cases hlast : tickInWindow last stepSecs window = true
        · rw [if_pos hlast]
          exact fun t ht htlast =>
            by rw [covered_cons, tickInWindow_between hstep hin hlast ht htlast, Bool.true_or]
        · rw [if_neg hlast]
          have hne : cursor ≠ last := fun heq => hlast (heq ▸ hin)
          obtain ⟨past, heq, hle, hlt, hpast, hout⟩ :=
            pastWindow_spec (le_refl (last - cursor)) (by omega) hin hlast
          rw [heq]
          refine (ih hrest hlt).extend (by omega) (fun t ht htpast => ?_) fun t ht => ?_
          · rw [covered_cons, tickInWindow_between hstep hin hpast ht (by omega), Bool.true_or]
          · have hend : window.1 ≤ ((past + 1 : Nat) : ℚ) * stepSecs :=
              hstart.trans (tick_mono hstep (by omega))
            exact covered_cons_of_not windows (not_tickInWindow_of_past hstep hend hout ht)
      · -- The window is behind the cursor.
        rw [if_neg hin]
        refine (ih hrest hcursor).extend (le_refl cursor) (fun t _ _ => by omega) fun t ht => ?_
        exact covered_cons_of_not windows (not_tickInWindow_of_past hstep hstart hin ht)

instance : Std.Total startsBefore := ⟨fun a b => le_total a.1 b.1⟩

instance : IsTrans Window startsBefore := ⟨fun _ _ _ hab hbc => le_trans hab hbc⟩

theorem firstUncoveredTick_spec (hstep : 0 < stepSecs) (start last : Nat) (windows : List Window) :
    FirstOutside (covered windows stepSecs) start last (firstUncoveredTick start last windows stepSecs) := by
  unfold firstUncoveredTick
  by_cases hempty : last < start
  · rw [if_pos hempty]
    exact fun t ht htlast => by omega
  · rw [if_neg hempty]
    have hspec := walkWindows_spec hstep (pairwise_insertionSort startsBefore windows)
      (not_lt.1 hempty)
    refine hspec.extend (le_refl start) (fun t _ _ => by omega) fun t _ => ?_
    exact ((perm_insertionSort startsBefore windows).any_eq).symm

/-- Behind the last window there are ticks that none has. -/
theorem exists_uncovered (hstep : 0 < stepSecs) (windows : List Window) :
    ∃ bound, ∀ t, bound ≤ t → covered windows stepSecs t = false := by
  induction windows with
  | nil => exact ⟨0, fun _ _ => rfl⟩
  | cons window windows ih =>
    obtain ⟨bound, hbound⟩ := ih
    obtain ⟨n, hn⟩ := Archimedean.arch window.2 hstep
    refine ⟨max bound n, fun t ht => ?_⟩
    rw [covered_cons_of_not, hbound t (by omega)]
    rw [tickInWindow_iff]
    intro hin
    exact absurd hin.2 (not_lt.2 (hn.trans (tick_mono hstep (by omega))))

end

/-! ## The check -/

section
variable (blanks : List Nat) (playback : Playback) (windows : List Window) (stepSecs : ℚ)
  {lastRow t row : Nat}

/-- The generator plays a blank slot at the tick. -/
def PlaysBlank (t : Nat) : Prop := 0 < playback.rowCount ∧ valueIndex playback t ∈ blanks

/-- The scenario gets to the tick. -/
def Reaches (t : Nat) : Prop := ∀ last ∈ playback.lastTick, t ≤ last

variable {blanks playback windows stepSecs}

theorem uncoveredBlanks_eq_nil :
    uncoveredBlanks blanks windows stepSecs = [] ↔ ∀ row ∈ blanks, covered windows stepSecs row = true := by
  unfold uncoveredBlanks
  rw [filter_eq_nil_iff]
  refine forall₂_congr fun row _ => ?_
  rw [Bool.not_eq_true', Bool.not_eq_false]

theorem presentButSilenced_eq_nil {rowCount : Nat} :
    presentButSilenced blanks rowCount windows stepSecs = [] ↔
      ∀ row < rowCount, row ∉ blanks → covered windows stepSecs row = false := by
  unfold presentButSilenced
  rw [filter_eq_nil_iff]
  constructor
  · intro h row hrow hpresent
    rw [Bool.eq_false_iff]
    intro hcovered
    refine h row (mem_range.2 hrow) ?_
    rw [hcovered, Bool.true_and, Bool.not_eq_true', contains_eq_mem, decide_eq_false_iff_not]
    exact hpresent
  · intro h row hrow hboth
    rw [Bool.and_eq_true, Bool.not_eq_true', contains_eq_mem, decide_eq_false_iff_not] at hboth
    rw [h row (mem_range.1 hrow) hboth.2] at hboth
    exact Bool.false_ne_true hboth.1

/-- The last slot is played at the ticks past the rows. -/
theorem playsBlank_past (hrepeat : playback.repeats = false)
    (hrows : playback.rowCount = lastRow + 1) (ht : lastRow ≤ t) :
    PlaysBlank blanks playback t ↔ lastRow ∈ blanks := by
  unfold PlaysBlank valueIndex
  rw [hrepeat, hrows, if_neg Bool.false_ne_true, Nat.add_sub_cancel, Nat.min_eq_right ht]
  exact and_iff_right (Nat.succ_pos lastRow)

theorem playsBlank_row (hrepeat : playback.repeats = false) (ht : t < playback.rowCount) :
    PlaysBlank blanks playback t ↔ t ∈ blanks := by
  unfold PlaysBlank valueIndex
  rw [hrepeat, if_neg Bool.false_ne_true, Nat.min_eq_left (by omega)]
  exact and_iff_right (by omega)

/-- The held slot stays in the windows up to the last tick. -/
theorem checkHeld_ok_iff (hstep : 0 < stepSecs) {lastTick : Option Nat} :
    checkHeld lastRow lastTick windows stepSecs = .ok () ↔
      ∀ t, lastRow + 1 ≤ t → (∀ last ∈ lastTick, t ≤ last) → covered windows stepSecs t = true := by
  cases lastTick with
  | none =>
    refine iff_of_false nofun fun h => ?_
    obtain ⟨bound, hbound⟩ := exists_uncovered hstep windows
    have hin := h (max bound (lastRow + 1)) (by omega) nofun
    rw [hbound _ (by omega)] at hin
    exact Bool.false_ne_true hin
  | some last =>
    have hspec := firstUncoveredTick_spec hstep (lastRow + 1) last windows
    unfold checkHeld
    dsimp only
    cases hfirst : firstUncoveredTick (lastRow + 1) last windows stepSecs with
    | none =>
      rw [hfirst] at hspec
      exact iff_of_true rfl fun t ht hlast => hspec t ht (hlast last rfl)
    | some first =>
      rw [hfirst] at hspec
      refine iff_of_false nofun fun h => ?_
      obtain ⟨⟨hstart, hle, hout⟩, -⟩ := hspec
      have hin := h first hstart (fun l hl => by cases hl; exact hle)
      rw [hout] at hin
      exact Bool.false_ne_true hin

variable (blanks playback windows stepSecs) in
/-- The checks before the one of the last row pass. -/
def RowsAgree : Prop :=
  (blanks = [] ∨ playback.repeats = false ∧ playback.bursts = false) ∧
    (∀ row ∈ blanks, covered windows stepSecs row = true) ∧
    ∀ row < playback.rowCount, row ∉ blanks → covered windows stepSecs row = false

theorem RowsAgree.repeats (h : RowsAgree blanks playback windows stepSecs) (hblank : row ∈ blanks) :
    playback.repeats = false := by
  rcases h.1 with hnil | hoff
  · rw [hnil] at hblank
    exact absurd hblank not_mem_nil
  · exact hoff.1

variable (blanks playback windows stepSecs) in
/-- What is before the check of the last row refuses, with an error of its own, or passes. -/
theorem checkGapWindows_cases : (RowsAgree blanks playback windows stepSecs ∧
      checkGapWindows blanks playback windows stepSecs = checkLastRow blanks playback windows stepSecs) ∨
    ¬ RowsAgree blanks playback windows stepSecs ∧
      ∃ e, checkGapWindows blanks playback windows stepSecs = .error e ∧ ∀ row t, e ≠ .held row t := by
  unfold RowsAgree checkGapWindows
  rw [← uncoveredBlanks_eq_nil, ← presentButSilenced_eq_nil]
  by_cases hrepeats : (playback.repeats && !blanks.isEmpty) = true
  · rw [if_pos hrepeats]
    rw [Bool.and_eq_true, Bool.not_eq_true', isEmpty_eq_false_iff] at hrepeats
    refine .inr ⟨fun h => ?_, _, rfl, nofun⟩
    rcases h.1 with hnil | ⟨hoff, -⟩
    · exact hrepeats.2 hnil
    · exact Bool.false_ne_true (hoff.symm.trans hrepeats.1)
  rw [if_neg hrepeats]
  by_cases hbursts : (playback.bursts && !blanks.isEmpty) = true
  · rw [if_pos hbursts]
    rw [Bool.and_eq_true, Bool.not_eq_true', isEmpty_eq_false_iff] at hbursts
    refine .inr ⟨fun h => ?_, _, rfl, nofun⟩
    rcases h.1 with hnil | ⟨-, hoff⟩
    · exact hbursts.2 hnil
    · exact Bool.false_ne_true (hoff.symm.trans hbursts.1)
  rw [if_neg hbursts]
  have hmode : blanks = [] ∨ playback.repeats = false ∧ playback.bursts = false := by
    rw [Bool.and_eq_true, Bool.not_eq_true', isEmpty_eq_false_iff, not_and, not_not] at hrepeats hbursts
    by_cases hnil : blanks = []
    · exact .inl hnil
    · exact .inr ⟨Bool.eq_false_iff.2 fun h => hnil (hrepeats h), Bool.eq_false_iff.2 fun h => hnil (hbursts h)⟩
  by_cases huncovered : (!(uncoveredBlanks blanks windows stepSecs).isEmpty) = true
  · rw [if_pos huncovered]
    rw [Bool.not_eq_true', isEmpty_eq_false_iff] at huncovered
    exact .inr ⟨fun h => huncovered h.2.1, _, rfl, nofun⟩
  rw [if_neg huncovered]
  by_cases hsilenced : (!(presentButSilenced blanks playback.rowCount windows stepSecs).isEmpty) = true
  · rw [if_pos hsilenced]
    rw [Bool.not_eq_true', isEmpty_eq_false_iff] at hsilenced
    exact .inr ⟨fun h => hsilenced h.2.2, _, rfl, nofun⟩
  rw [if_neg hsilenced]
  rw [Bool.not_eq_true', isEmpty_eq_false_iff, not_not] at huncovered hsilenced
  exact .inl ⟨⟨hmode, huncovered, hsilenced⟩, rfl⟩

/-- Where the rows agree with the windows, the blanks past the rows do too. -/
theorem checkLastRow_ok_iff (hstep : 0 < stepSecs) (hrows : RowsAgree blanks playback windows stepSecs) :
    checkLastRow blanks playback windows stepSecs = .ok () ↔
      ∀ t, Reaches playback t → PlaysBlank blanks playback t → covered windows stepSecs t = true := by
  have ⟨hmode, hcovered, _⟩ := hrows
  unfold checkLastRow
  split
  · next hzero => exact iff_of_true rfl fun t _ hplays => absurd hplays.1 (by omega)
  · next lastRow hcount =>
    by_cases hblank : lastRow ∈ blanks
    · have hrepeat := hrows.repeats hblank
      rw [if_pos (by rwa [contains_eq_mem, decide_eq_true_eq]), checkHeld_ok_iff hstep]
      constructor
      · intro h t hreach hplays
        by_cases ht : t < playback.rowCount
        · exact hcovered t ((playsBlank_row hrepeat ht).1 hplays)
        · exact h t (by omega) hreach
      · intro h t ht hreach
        exact h t hreach ((playsBlank_past hrepeat hcount (by omega)).2 hblank)
    · rw [if_neg (by rwa [contains_eq_mem, decide_eq_true_eq])]
      refine iff_of_true rfl fun t _ hplays => ?_
      rcases hmode with hnil | ⟨hrepeat, -⟩
      · have hmem := hplays.2
        rw [hnil] at hmem
        exact absurd hmem not_mem_nil
      · by_cases ht : t < playback.rowCount
        · exact hcovered t ((playsBlank_row hrepeat ht).1 hplays)
        · exact absurd ((playsBlank_past hrepeat hcount (by omega)).1 hplays) hblank

/-- The tick that is named is the first one the generator plays a blank slot at outside the windows. -/
theorem checkLastRow_held (hstep : 0 < stepSecs)
    (hrows : RowsAgree blanks playback windows stepSecs) {first : Nat}
    (h : checkLastRow blanks playback windows stepSecs = .error (.held row first)) :
    IsLeast {t | Reaches playback t ∧ PlaysBlank blanks playback t ∧ covered windows stepSecs t = false}
      first := by
  have hcovered := hrows.2.1
  unfold checkLastRow at h
  split at h
  · cases h
  · next lastRow hcount =>
    split at h
    · next hblank =>
      rw [contains_eq_mem, decide_eq_true_eq] at hblank
      have hrepeat := hrows.repeats hblank
      unfold checkHeld at h
      split at h
      · cases h
      · next last hlast =>
        have hspec := firstUncoveredTick_spec hstep (lastRow + 1) last windows
        split at h
        · next tick htick =>
          cases h
          rw [htick] at hspec
          obtain ⟨⟨hstart, hle, hout⟩, hbefore⟩ := hspec
          have hreach : Reaches playback first := by
            intro l hl
            rw [hlast] at hl
            cases hl
            exact hle
          refine ⟨⟨hreach, (playsBlank_past hrepeat hcount (by omega)).2 hblank, hout⟩, ?_⟩
          rintro t ⟨-, hplays, htout⟩
          by_contra hlt
          have hin : covered windows stepSecs t = true := by
            by_cases ht : t < playback.rowCount
            · exact hcovered t ((playsBlank_row hrepeat ht).1 hplays)
            · exact hbefore t (by omega) (by omega)
          exact Bool.false_ne_true (htout.symm.trans hin)
        · cases h
    · cases h

/-- The check passes exactly when a capture with blanks is played once and on its grid, every blank
row and every tick at which a blank slot is played lies in a window, and no other row does. The
tick of an error about the held slot is the first that is played outside every window. -/
theorem crossCheckGapWindows_ok_iff (blanks : List Nat) (playback : Playback) (windows : List Window)
    (stepSecs : ℚ) (hstep : 0 < stepSecs) :
    (crossCheckGapWindows blanks playback windows stepSecs = .ok () ↔
      (blanks = [] ∨ playback.repeats = false ∧ playback.bursts = false) ∧
      ((∀ row ∈ blanks, covered windows stepSecs row = true) ∧
        ∀ t, Reaches playback t → PlaysBlank blanks playback t → covered windows stepSecs t = true) ∧
      ∀ row < playback.rowCount, row ∉ blanks → covered windows stepSecs row = false) ∧
    ∀ row first, checkGapWindows blanks playback windows stepSecs = .error (.held row first) →
      crossCheckGapWindows blanks playback windows stepSecs = .error (GapMismatch.held row first).toError ∧
      IsLeast {t | Reaches playback t ∧ PlaysBlank blanks playback t ∧ covered windows stepSecs t = false}
        first := by
  unfold crossCheckGapWindows
  rcases checkGapWindows_cases blanks playback windows stepSecs with ⟨hrows, heq⟩ | ⟨hrows, e, heq, hheld⟩
  · rw [heq]
    refine ⟨?_, fun row first h => ⟨by rw [h]; rfl, checkLastRow_held hstep hrows h⟩⟩
    have hlast := checkLastRow_ok_iff hstep hrows
    obtain ⟨hmode, hcovered, hpresent⟩ := hrows
    have hmap : (checkLastRow blanks playback windows stepSecs).mapError GapMismatch.toError = .ok () ↔
        checkLastRow blanks playback windows stepSecs = .ok () := by
      cases checkLastRow blanks playback windows stepSecs with
      | ok _ => exact iff_of_true rfl rfl
      | error _ => exact iff_of_false nofun nofun
    rw [hmap, hlast]
    exact ⟨fun h => ⟨hmode, ⟨hcovered, h⟩, hpresent⟩, fun h => h.2.1.2⟩
  · rw [heq]
    refine ⟨iff_of_false nofun fun h => hrows ⟨h.1, h.2.1.1, h.2.2⟩, fun row first h => ?_⟩
    cases h
    exact absurd rfl (hheld row first)

end

/-- A blank last row that is held for two ticks, in a window that ends before the second. -/
theorem crossCheckGapWindows_held :
    crossCheckGapWindows [2] ⟨3, false, some 4, false⟩ [(2, 4)] 1 = .error (GapMismatch.held 2 4).toError ∧
      IsLeast {t | Reaches ⟨3, false, some 4, false⟩ t ∧ PlaysBlank [2] ⟨3, false, some 4, false⟩ t ∧
        covered [(2, 4)] 1 t = false} 4 :=
  (crossCheckGapWindows_ok_iff [2] ⟨3, false, some 4, false⟩ [(2, 4)] 1 one_pos).2 2 4 (by decide +kernel)

/-- The run ends before the blank row, which is refused all the same. -/
theorem crossCheckGapWindows_unreached :
    (∀ t, Reaches ⟨10, false, some 2, false⟩ t → ¬ PlaysBlank [5] ⟨10, false, some 2, false⟩ t) ∧
      crossCheckGapWindows [5] ⟨10, false, some 2, false⟩ [] 1 = .error (GapMismatch.uncovered [5]).toError := by
  refine ⟨fun t hreach hplays => ?_, rfl⟩
  have ht : t ≤ 2 := hreach 2 rfl
  have hmem : min t 9 ∈ [5] := hplays.2
  rw [mem_singleton] at hmem
  omega

end Sonda.Csv
