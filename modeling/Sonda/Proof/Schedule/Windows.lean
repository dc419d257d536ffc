import Sonda.Impl.Schedule.Windows

/-!
# What the windows of a schedule say about instants

Past `lastEnd` no one-shot window covers anything.
`gapWindowWalk_clear`: the walk to the end of a contiguous silence ends on an
instant no window covers, within the passes the model gives it.
-/

namespace Sonda.Proof.Schedule

open Sonda.Schedule List

variable {windows : List OneShotGap}

/-! ## One-shot windows -/

theorem covers_iff {w : OneShotGap} {n : Nat} :
    w.covers n = true ↔ w.atOffset ≤ n ∧ n < w.endOffset := by
  simp [OneShotGap.covers]

theorem isInGapWindow_iff {n : Nat} :
    isInGapWindow n windows = true ↔ ∃ w ∈ windows, w.atOffset ≤ n ∧ n < w.endOffset := by
  simp only [isInGapWindow, any_eq_true, covers_iff]

theorem endOffset_le_lastEnd : ∀ {windows : List OneShotGap} {w : OneShotGap}, w ∈ windows →
    w.endOffset ≤ lastEnd windows
  | v :: vs, w, h => by
    simp only [lastEnd, foldr_cons]
    rcases mem_cons.mp h with rfl | h
    · exact Nat.le_max_left _ _
    · exact (endOffset_le_lastEnd h).trans (Nat.le_max_right _ _)

/-- No window covers an instant past the end of all of them. -/
theorem isInGapWindow_lastEnd {elapsed : Nat} (h : lastEnd windows ≤ elapsed) :
    isInGapWindow elapsed windows = false := by
  rw [← Bool.not_eq_true, isInGapWindow_iff]
  rintro ⟨w, hw, -, hlt⟩
  have := endOffset_le_lastEnd hw
  omega

/-! ## The walk to the end of a silence -/

section pass

variable {w : OneShotGap} {ws : List OneShotGap} {c : Nat}

theorem pass_of_covers (h : w.covers c = true) :
    gapWindowPass (w :: ws) c = gapWindowPass ws w.endOffset := by
  simp [gapWindowPass, h]

theorem pass_of_not_covers (h : ¬ w.covers c = true) :
    gapWindowPass (w :: ws) c = gapWindowPass ws c := by
  simp [gapWindowPass, h]

end pass

theorem le_gapWindowPass : ∀ (windows : List OneShotGap) (c : Nat), c ≤ gapWindowPass windows c
  | [], c => Nat.le_refl c
  | w :: ws, c => by
    by_cases hw : w.covers c = true
    · rw [pass_of_covers hw]
      exact (covers_iff.mp hw).2.le.trans (le_gapWindowPass ws _)
    · rw [pass_of_not_covers hw]
      exact le_gapWindowPass ws c

/-- A pass that moves the cursor passes the end of a window that lay ahead. -/
theorem exists_passed : ∀ {windows : List OneShotGap} {c : Nat}, c < gapWindowPass windows c →
    ∃ w ∈ windows, c < w.endOffset ∧ w.endOffset ≤ gapWindowPass windows c
  | [], c, h => absurd h (Nat.lt_irrefl c)
  | w :: ws, c, h => by
    by_cases hw : w.covers c = true
    · rw [pass_of_covers hw]
      exact ⟨w, mem_cons_self, (covers_iff.mp hw).2, le_gapWindowPass ws _⟩
    · rw [pass_of_not_covers hw] at h ⊢
      obtain ⟨v, hv, h₁, h₂⟩ := exists_passed h
      exact ⟨v, mem_cons_of_mem _ hv, h₁, h₂⟩

/-- A pass that does not move the cursor found no window that covers it. -/
theorem clear_of_pass : ∀ {windows : List OneShotGap} {c : Nat}, gapWindowPass windows c = c →
    isInGapWindow c windows = false
  | [], _, _ => rfl
  | w :: ws, c, h => by
    have hw : ¬ w.covers c = true := by
      intro hw
      have h₁ := le_gapWindowPass ws w.endOffset
      have h₂ := (covers_iff.mp hw).2
      rw [← pass_of_covers hw] at h₁
      omega
    rw [pass_of_not_covers hw] at h
    simpa [isInGapWindow, hw] using clear_of_pass h

/-- The windows whose end lies ahead of the cursor. -/
def ahead (windows : List OneShotGap) (c : Nat) : Nat := windows.countP fun w => c < w.endOffset

theorem ahead_anti (windows : List OneShotGap) {c d : Nat} (h : c ≤ d) :
    ahead windows d ≤ ahead windows c := by
  refine countP_mono_left fun v _ hv => ?_
  simp only [decide_eq_true_eq] at hv ⊢
  omega

/-- A pass that moves the cursor leaves fewer windows ahead of it. -/
theorem ahead_pass_lt {c : Nat} (h : c < gapWindowPass windows c) :
    ahead windows (gapWindowPass windows c) < ahead windows c := by
  obtain ⟨w, hw, h₁, h₂⟩ := exists_passed h
  generalize gapWindowPass windows c = d at h h₂
  obtain ⟨as, bs, rfl⟩ := append_of_mem hw
  have ha := ahead_anti as h.le
  have hb := ahead_anti bs h.le
  have hc : (decide (c < w.endOffset)) = true := by simpa using h₁
  have hd : (decide (d < w.endOffset)) = false := by simpa using h₂
  simp only [ahead, countP_append, countP_cons, hc, hd, if_true, Bool.false_eq_true,
    if_false] at ha hb ⊢
  omega

theorem gapWindowWalk_clear_of : ∀ {fuel c : Nat},
    ahead windows c < fuel → isInGapWindow (gapWindowWalk windows fuel c) windows = false
  | fuel + 1, c, h => by
    simp only [gapWindowWalk]
    split
    · rename_i e; exact clear_of_pass e
    · rename_i e
      have hlt : c < gapWindowPass windows c :=
        lt_of_le_of_ne (le_gapWindowPass windows c) (Ne.symm e)
      exact gapWindowWalk_clear_of (by have := ahead_pass_lt hlt; omega)

/-- The walk ends on an instant that no window covers. -/
theorem gapWindowWalk_clear (windows : List OneShotGap) (c : Nat) :
    isInGapWindow (gapWindowWalk windows (windows.length + 1) c) windows = false :=
  gapWindowWalk_clear_of (Nat.lt_succ_of_le countP_le_length)

end Sonda.Proof.Schedule
