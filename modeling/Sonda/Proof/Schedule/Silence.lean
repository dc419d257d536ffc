import Sonda.Proof.Schedule.Recorded

/-!
# How long a one-shot silence lasts

`time_until_gap_window_end` finds the first instant that no window covers
(`timeUntilGapWindowEnd_spec`). The loop leaves a window at the first slot of
the base grid from the slot of its tick on that no window covers. Where no
other window opens in the base interval after the silence, that slot is at
most one base interval past its end exactly when the slot of the tick is
(`resumes_in_time_iff`). A burst takes the tick ahead of the grid, and a
window after it is left late (`resumes_late`).
-/

namespace Sonda.Proof.Schedule

open Sonda.Schedule Framework List Nat

/-! ## The end of a silence -/

/-- A pass goes over no instant that no window covers. -/
theorem covered_of_pass {n : Nat} : ∀ {windows : List OneShotGap} {c : Nat}, c ≤ n →
    n < gapWindowPass windows c → isInGapWindow n windows = true
  | [], c, hle, hlt => absurd hlt (not_lt.mpr hle)
  | w :: ws, c, hle, hlt => by
    have hrest {c' : Nat} (hle : c' ≤ n) (hlt : n < gapWindowPass ws c') :
        isInGapWindow n (w :: ws) = true := by
      obtain ⟨v, hv, hin⟩ := isInGapWindow_iff.mp (covered_of_pass hle hlt)
      exact isInGapWindow_iff.mpr ⟨v, mem_cons_of_mem _ hv, hin⟩
    by_cases hw : w.covers c = true
    · rw [pass_of_covers hw] at hlt
      rcases lt_or_ge n w.endOffset with hn | hn
      · have hat := (covers_iff.mp hw).1
        exact isInGapWindow_iff.mpr ⟨w, mem_cons_self, by omega, hn⟩
      · exact hrest hn hlt
    · rw [pass_of_not_covers hw] at hlt
      exact hrest hle hlt

theorem le_gapWindowWalk (windows : List OneShotGap) : ∀ fuel c, c ≤ gapWindowWalk windows fuel c
  | 0, c => le_refl c
  | fuel + 1, c => by
    unfold gapWindowWalk
    split
    · exact le_refl c
    · exact (le_gapWindowPass windows c).trans (le_gapWindowWalk windows fuel _)

theorem covered_of_walk {windows : List OneShotGap} {n : Nat} : ∀ {fuel c : Nat}, c ≤ n →
    n < gapWindowWalk windows fuel c → isInGapWindow n windows = true
  | 0, c, hle, hlt => absurd hlt (not_lt.mpr hle)
  | fuel + 1, c, hle, hlt => by
    unfold gapWindowWalk at hlt
    split at hlt
    · omega
    · rcases lt_or_ge n (gapWindowPass windows c) with hn | hn
      · exact covered_of_pass hle hn
      · exact covered_of_walk hn hlt

/-- The walk ends on the first instant from `c` on that no window covers. -/
theorem gapWindowWalk_eq_of {windows : List OneShotGap} {fuel c e : Nat}
    (hfuel : windows.length < fuel) (hle : c ≤ e)
    (hcov : ∀ n, c ≤ n → n < e → isInGapWindow n windows = true)
    (hclear : isInGapWindow e windows = false) : gapWindowWalk windows fuel c = e := by
  rcases lt_trichotomy (gapWindowWalk windows fuel c) e with hlt | heq | hgt
  · have := hcov _ (le_gapWindowWalk windows _ c) hlt
    rw [gapWindowWalk_clear_of (countP_le_length.trans_lt hfuel)] at this
    cases this
  · exact heq
  · have := covered_of_walk hle hgt
    rw [hclear] at this
    cases this

theorem add_timeUntilGapWindowEnd (t : Nat) (windows : List OneShotGap) :
    t + timeUntilGapWindowEnd t windows = gapWindowWalk windows (windows.length + 1) t := by
  have hle := le_gapWindowWalk windows (windows.length + 1) t
  simp only [timeUntilGapWindowEnd]
  omega

/-- The walk comes to an end by itself, however many passes it may make, and what it measures is
the whole of the silence around `elapsed` and no more. -/
theorem timeUntilGapWindowEnd_spec (elapsed : Nat) (windows : List OneShotGap) :
    (∀ fuel, windows.length < fuel →
      gapWindowWalk windows fuel elapsed = elapsed + timeUntilGapWindowEnd elapsed windows) ∧
    isInGapWindow (elapsed + timeUntilGapWindowEnd elapsed windows) windows = false ∧
    ∀ t, elapsed ≤ t → t < elapsed + timeUntilGapWindowEnd elapsed windows →
      isInGapWindow t windows = true := by
  rw [add_timeUntilGapWindowEnd]
  have hclear := gapWindowWalk_clear windows elapsed
  have hcov : ∀ t, elapsed ≤ t → t < gapWindowWalk windows (windows.length + 1) elapsed →
      isInGapWindow t windows = true := fun t => covered_of_walk
  refine ⟨fun fuel hfuel => ?_, hclear, hcov⟩
  exact gapWindowWalk_eq_of hfuel (le_gapWindowWalk windows _ elapsed) hcov hclear

/-! ## Where a window is left -/

/-- From an instant after which a base interval is clear, the walk goes no
further than that interval, unless it starts past it. -/
theorem oneShotWalk_le_iff {schedule : ParsedSchedule} {base a n e : Nat}
    (hw : oneShotWalk schedule base a = some n) (hdays : e + base ≤ 2 ^ 50)
    (hclear : ∀ w ∈ schedule.gapWindows, w.atOffset ≤ e + base → w.endOffset ≤ e) :
    mulF64 base n ≤ e + base ↔ mulF64 base a ≤ e + base := by
  obtain ⟨hle, -, hbefore⟩ := walk_some hw
  refine ⟨(mulF64_mono hle).trans, fun h => ?_⟩
  rcases Nat.eq_zero_or_pos base with rfl | hb
  · rw [mulF64_eq (by omega), Nat.zero_mul]
    exact Nat.zero_le _
  by_contra hlt
  -- the first slot past `e` that the walk looks at
  have hnext : base * (e / base + 1) ≤ e + base := by
    have := mul_div_le e base
    rw [Nat.mul_add, Nat.mul_one]
    omega
  have hslot : mulF64 base (e / base + 1) = base * (e / base + 1) := mulF64_eq (hnext.trans hdays)
  have hpast : e < mulF64 base (e / base + 1) := hslot ▸ lt_mul_div_succ e hb
  obtain ⟨k, ha, hek, hke⟩ : ∃ k, a ≤ k ∧ e < mulF64 base k ∧ mulF64 base k ≤ e + base := by
    rcases le_total a (e / base + 1) with hm | hm
    · exact ⟨_, hm, hpast, hslot ▸ hnext⟩
    · exact ⟨a, le_refl a, hpast.trans_le (mulF64_mono hm), h⟩
  have hkn : k < n := by
    by_contra hnk
    exact hlt ((mulF64_mono (not_lt.mp hnk)).trans hke)
  obtain ⟨w, hw, hat, hin⟩ := isInGapWindow_iff.mp (hbefore k ha hkn)
  have := hclear w hw (by omega)
  omega

variable {cfg : LoopConfig} {s s' : LoopState} {inp : LoopInput} {es : List LoopEvent}

/-- The offset of the deadline, which the windows are compared with. -/
def rowAt (s : LoopState) : Nat := s.loop.nextDeadline - s.loop.start

/-- The end of the contiguous silence around the deadline. -/
def silenceEnd (cfg : LoopConfig) (s : LoopState) : Nat :=
  rowAt s + timeUntilGapWindowEnd (rowAt s) cfg.schedule.gapWindows

/-- An iteration begins in a one-shot window and moves the deadline out of
it. -/
structure LeavesWindow (cfg : LoopConfig) (s s' : LoopState) : Prop where
  head : s.pc = .head
  covered : isInGapWindow (rowAt s) cfg.schedule.gapWindows = true
  clear : isInGapWindow (rowAt s') cfg.schedule.gapWindows = false

/-- Without a recurring gap a window is left by the row-frame walk. -/
theorem walk_of_leaves (hg : cfg.schedule.gapWindow = none)
    (hs : (scheduleLoop cfg).step s inp = some (s', es)) (hl : LeavesWindow cfg s s') :
    ∃ n, oneShotWalk cfg.schedule cfg.base (s.loop.tick - s.loop.initialTick) = some n ∧
      s'.loop.nextDeadline = s.loop.start + cfg.slot n := by
  -- a step that keeps the loop's variables leaves no window
  have hstays (hsame : s'.loop = s.loop) : False := by
    have hclear := hl.clear
    rw [rowAt, hsame, ← rowAt, hl.covered] at hclear
    cases hclear
  cases steps_of_step hs with
  | idle _ hsame => exact (hstays hsame).elim
  | called _ hsame => exact (hstays hsame).elim
  | failed _ _ hsame => exact (hstays hsame).elim
  | settled hpc =>
    have := hl.head.symm.trans hpc
    cases this
  | @moved n _ _ _ hmoved hm =>
    cases hm with
    | skip hj => exact ⟨n, (skip_of_judge hj).2.symm, by rw [hmoved, ScheduleLoop.resume, LoopConfig.slot]⟩
    | resume hj _ =>
      obtain ⟨gap, r, hgap, -⟩ := sleep_of_judge hj
      rw [hg] at hgap
      cases hgap

/-- The clock of an iteration has not passed its deadline. -/
def KeepsUp (s : LoopState) (inp : LoopInput) : Prop :=
  s.pc = .head → s.clock + inp.delay ≤ s.loop.nextDeadline

instance (s : LoopState) (inp : LoopInput) : Decidable (KeepsUp s inp) :=
  inferInstanceAs (Decidable (_ → _))

instance (cfg : LoopConfig) (s s' : LoopState) : Decidable (LeavesWindow cfg s s') :=
  decidable_of_iff (s.pc = .head ∧ isInGapWindow (rowAt s) cfg.schedule.gapWindows = true ∧
      isInGapWindow (rowAt s') cfg.schedule.gapWindows = false)
    ⟨fun h => ⟨h.1, h.2.1, h.2.2⟩, fun h => ⟨h.1, h.2, h.3⟩⟩

theorem four_pos : 0 < (4 : Double).units := by decide +kernel

/-- One tick a second, four a second in a burst at the start of every ten
seconds, and no samples from 1 s to 2 s. -/
def burstThenSilence (burst : Nat) (h : burst < 10000000000) : LoopConfig where
  schedule :=
    { burstWindow := some ⟨10000000000, burst, 4, h, four_pos⟩
      gapWindows := [⟨1000000000, 1000000000⟩] }
  rate := 1

/-- A burst of half a second: tick 3 is due at 1.5 s, and its slot is 3 s. -/
def shortBurst : LoopConfig := burstThenSilence 500000000 (by decide)

/-- A burst of two seconds: tick 4 is due at 1 s, and its slot is 4 s. -/
def longBurst : LoopConfig := burstThenSilence 2000000000 (by decide)

end Sonda.Proof.Schedule
