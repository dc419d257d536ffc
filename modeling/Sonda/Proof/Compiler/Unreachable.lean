import Sonda.Proof.Compiler.RampCrossings

/-!
# Thresholds out of range

The ticks of a ramp go from its baseline to its last tick (`ramp_reaches_iff`), those of a
spike are its peak and its baseline, where there are such ticks (`spike_reaches_iff`), and
a step that wraps comes up to a common measure below its bound (`step_reaches_iff`). So
the compiler refuses a threshold as out of range that the generator passes exactly where
`Misses` says (`outOfRange_iff`).
-/

namespace Sonda.Compiler

open Framework Generator
open StepGenerator (value wraps)
open Config

variable {op : Operator} {message : String}
  {threshold baseline rate ceiling period height duration : ℚ} {num : ℚ → String}

/-! ## Ramps -/

/-- What a ramp has at its last tick. -/
def rampLast (baseline ceiling ticks : ℚ) : ℚ :=
  baseline + (|ticks| - measure 1 |ticks|) / ticks * (ceiling - baseline)

/-- A value on a line holds only if one of its ends does. -/
theorem holds_ends {a k x p : ℚ} (hx : 0 ≤ x) (hp : x ≤ p)
    (h : op.holds (a + x * k) threshold = true) :
    op.holds a threshold = true ∨ op.holds (a + p * k) threshold = true := by
  cases op with
  | lessThan =>
    rw [holds_lessThan] at h ⊢
    rw [holds_lessThan]
    rcases le_total 0 k with hk | hk
    · exact .inl (by nlinarith)
    · exact .inr (by nlinarith)
  | greaterThan =>
    rw [holds_greaterThan] at h ⊢
    rw [holds_greaterThan]
    rcases le_total 0 k with hk | hk
    · exact .inr (by nlinarith)
    · exact .inl (by nlinarith)

theorem ramp_reaches_iff (hrate : 0 < rate) :
    (∃ n, Satisfies (Sawtooth.new baseline ceiling period rate).value op threshold n) ↔
      period ≠ 0 ∧ (op.holds baseline threshold = true ∨
        op.holds (rampLast baseline ceiling (period * rate)) threshold = true) := by
  have hvalue : ∀ n, (Sawtooth.new baseline ceiling period rate).value n =
      (frem n (period * rate)).map fun position =>
        baseline + position / (period * rate) * (ceiling - baseline) := fun _ => rfl
  by_cases hperiod : period = 0
  · refine iff_of_false ?_ fun h => h.1 hperiod
    rintro ⟨n, hn⟩
    rw [Satisfies, hvalue, hperiod, zero_mul, frem, if_pos rfl] at hn
    cases hn
  · have hticks : period * rate ≠ 0 := mul_ne_zero hperiod hrate.ne'
    have hpos : 0 < |period * rate| := abs_pos.2 hticks
    have hsat : ∀ n, Satisfies (Sawtooth.new baseline ceiling period rate).value op threshold n ↔
        op.holds (baseline + residue n |period * rate| * ((ceiling - baseline) / (period * rate)))
          threshold = true := by
      intro n
      rw [satisfies_some (by rw [hvalue, frem, if_neg hticks, Option.map_some])]
      rw [show residue n |period * rate| / (period * rate) * (ceiling - baseline) =
        residue n |period * rate| * ((ceiling - baseline) / (period * rate)) by ring]
    have hlast : rampLast baseline ceiling (period * rate) =
        baseline + (|period * rate| - measure 1 |period * rate|) *
          ((ceiling - baseline) / (period * rate)) := by
      rw [rampLast]
      ring
    simp only [hsat]
    constructor
    · rintro ⟨n, hn⟩
      refine ⟨hperiod, ?_⟩
      rw [hlast]
      have hle := residue_le 1 hpos n
      rw [mul_one] at hle
      exact holds_ends (residue_nonneg hpos) hle hn
    · rintro ⟨-, h | h⟩
      · refine ⟨0, ?_⟩
        rw [Nat.cast_zero, residue_of_lt le_rfl hpos, zero_mul, add_zero]
        exact h
      · obtain ⟨n, hn⟩ := exists_residue 1 hpos
        rw [mul_one] at hn
        refine ⟨n, ?_⟩
        rw [hn, ← hlast]
        exact h

/-- When a ramp is refused as out of range. -/
theorem sawtooth_outOfRange
    (h : sawtoothCrossingSecs num op threshold baseline ceiling period = .error (.outOfRange message)) :
    |ceiling - baseline| < epsilon ∨ epsilon ≤ |ceiling - baseline| ∧
      (op = .greaterThan ∧ baseline ≤ threshold ∧ ceiling ≤ threshold ∨
        op = .lessThan ∧ threshold ≤ baseline) := by
  unfold sawtoothCrossingSecs at h
  dsimp only at h
  split at h
  · exact .inl (by assumption)
  · rename_i hrange
    refine .inr ⟨not_lt.1 hrange, ?_⟩
    rw [ends_eq] at h
    cases op with
    | greaterThan =>
      left
      dsimp only at h
      split at h
      · rename_i hhi
        exact ⟨rfl, max_le_iff.1 hhi⟩
      · split at h <;> cases h
    | lessThan =>
      right
      dsimp only at h
      split at h
      · rename_i hlo
        exact ⟨rfl, hlo.trans (min_le_left _ _)⟩
      · split at h
        · cases h
        · split at h
          · cases h
          · exact ⟨rfl, not_lt.1 (by assumption)⟩

/-! ## Spikes -/

theorem spike_reaches_iff {interval : ℚ} (hrate : 0 < rate) (hinterval : 0 < interval) :
    (∃ n, Satisfies (SpikeGenerator.new baseline height duration interval rate).value op threshold n) ↔
      op.holds (baseline + height) threshold = true ∧ 0 < duration ∨
        op.holds baseline threshold = true ∧
          duration * rate ≤ interval * rate - measure 1 (interval * rate) := by
  have hticks : 0 < interval * rate := mul_pos hinterval hrate
  have hsat : ∀ n, Satisfies (SpikeGenerator.new baseline height duration interval rate).value op
      threshold n ↔ op.holds (if residue n (interval * rate) < duration * rate then baseline + height
        else baseline) threshold = true := by
    intro n
    rw [satisfies_some (spike_value hticks.ne' n), abs_of_pos hticks]
  simp only [hsat]
  constructor
  · rintro ⟨n, hn⟩
    split at hn
    · rename_i hup
      refine .inl ⟨hn, ?_⟩
      have hpos := lt_of_le_of_lt (residue_nonneg (x := n) hticks) hup
      exact (mul_pos_iff_of_pos_right hrate).1 hpos
    · rename_i hup
      have hle := residue_le 1 hticks n
      rw [mul_one] at hle
      exact .inr ⟨hn, (not_lt.1 hup).trans hle⟩
  · rintro (⟨hpeak, hduration⟩ | ⟨hbaseline, hduration⟩)
    · refine ⟨0, ?_⟩
      rw [Nat.cast_zero, residue_of_lt le_rfl hticks, if_pos (mul_pos hduration hrate)]
      exact hpeak
    · obtain ⟨n, hn⟩ := exists_residue 1 hticks
      rw [mul_one] at hn
      refine ⟨n, ?_⟩
      rw [hn, if_neg (not_lt.2 hduration)]
      exact hbaseline

/-- When a spike is refused as out of range. -/
theorem spike_outOfRange
    (h : spikeCrossingSecs num op threshold baseline height duration = .error (.outOfRange message)) :
    op = .greaterThan ∧ baseline + height ≤ threshold ∨ op = .lessThan ∧ threshold ≤ baseline := by
  unfold spikeCrossingSecs at h
  cases op with
  | greaterThan =>
    left
    dsimp only at h
    split at h
    · rename_i hhi
      exact ⟨rfl, (le_max_right _ _).trans hhi⟩
    · split at h
      · cases h
      · split at h
        · cases h
        · exact ⟨rfl, not_lt.1 (by assumption)⟩
  | lessThan =>
    right
    dsimp only at h
    split at h
    · rename_i hlo
      exact ⟨rfl, hlo.trans (min_le_left _ _)⟩
    · split at h
      · cases h
      · split at h
        · cases h
        · exact ⟨rfl, not_lt.1 (by assumption)⟩

/-! ## Steps -/

section

variable {threshold start stepSize m : ℚ} {max : Option ℚ}

theorem step_value_some (hmax : max.filter (fun m => start < m) = some m) (n : Nat) :
    value ⟨start, stepSize, max⟩ n = some (start + residue (n * stepSize) (m - start)) := by
  simp only [value, wraps, hmax]

theorem step_value_none (hmax : max.filter (fun m => start < m) = none) (n : Nat) :
    value ⟨start, stepSize, max⟩ n = some (start + n * stepSize) := by
  simp only [value, wraps, hmax]

theorem step_reaches_iff (hmax : max.filter (fun m => start < m) = some m) :
    (∃ n, Satisfies (value ⟨start, stepSize, max⟩) .greaterThan threshold n) ↔
      threshold < m - measure stepSize (m - start) := by
  have hm : start < m := by simpa using (Option.filter_eq_some_iff.1 hmax).2
  have hrange : 0 < m - start := by linarith
  simp only [satisfies_some (step_value_some hmax _), holds_greaterThan]
  constructor
  · rintro ⟨n, hn⟩
    have := residue_le stepSize hrange n
    linarith
  · intro h
    obtain ⟨n, hn⟩ := exists_residue stepSize hrange
    exact ⟨n, by rw [hn]; linarith⟩

/-- A step that goes down and does not wrap is highest at its start. -/
theorem step_falling_reaches_iff (hmax : max.filter (fun m => start < m) = none) (hstep : stepSize ≤ 0) :
    (∃ n, Satisfies (value ⟨start, stepSize, max⟩) .greaterThan threshold n) ↔
      threshold < start := by
  simp only [satisfies_some (step_value_none hmax _), holds_greaterThan]
  constructor
  · rintro ⟨n, hn⟩
    have := mul_nonpos_of_nonneg_of_nonpos (Nat.cast_nonneg (α := ℚ) n) hstep
    linarith
  · intro h
    exact ⟨0, by simpa using h⟩

/-- Before the crossing tick, the first pass is not above the threshold. -/
theorem le_of_lt_crossingTick (hstep : 0 < stepSize) (hstart : start ≤ threshold)
    {k : Nat} (hk : (k : ℚ) < crossingTick threshold start stepSize) : start + k * stepSize ≤ threshold := by
  unfold crossingTick at hk
  dsimp only at hk
  split at hk
  · have hzero : k = 0 := by
      have : k < 1 := by exact_mod_cast hk
      omega
    rw [hzero, Nat.cast_zero, zero_mul, add_zero]
    exact hstart
  · split at hk
    · have hkle : k ≤ ⌈(threshold - start) / stepSize⌉ := by
        have : (k : ℤ) < ⌈(threshold - start) / stepSize⌉ + 1 := by exact_mod_cast hk
        omega
      have hcast : (k : ℚ) ≤ (⌈(threshold - start) / stepSize⌉ : ℤ) := by exact_mod_cast hkle
      have := mul_le_mul_of_nonneg_right hcast hstep.le
      linarith
    · have hlt : (k : ℤ) < ⌈(threshold - start) / stepSize⌉ := by exact_mod_cast hk
      rw [Int.lt_ceil, lt_div_iff₀ hstep, Int.cast_natCast] at hlt
      linarith

/-- When a step is refused as out of range: its size is not positive, or it wraps at a
bound that the threshold has reached, or that the first pass comes to before it is above
the threshold. -/
theorem step_outOfRange {num : ℚ → String} {op : Operator} {rate : ℚ} {message : String} (hrate : 0 < rate)
    (h : stepCrossingSecs num op threshold start stepSize max rate = .error (.outOfRange message)) :
    op = .greaterThan ∧ (stepSize ≤ 0 ∨ 0 < stepSize ∧ start ≤ threshold ∧
      ∃ m, max.filter (fun m => start < m) = some m ∧
        (m ≤ threshold ∨ ∀ k : Nat, start + k * stepSize ≤ threshold ∨ m ≤ start + k * stepSize)) := by
  unfold stepCrossingSecs at h
  rw [if_neg (not_le.2 hrate)] at h
  cases op with
  | lessThan => cases h
  | greaterThan =>
    refine ⟨rfl, ?_⟩
    dsimp only at h
    split at h
    · rename_i hzero
      exact .inl hzero.le
    · rename_i hzero
      split at h
      · rename_i hneg
        exact .inl hneg.le
      · rename_i hneg
        have hpos : 0 < stepSize := lt_of_le_of_ne (not_lt.1 hneg) (Ne.symm hzero)
        split at h
        · cases h
        · rename_i hstart
          refine .inr ⟨hpos, not_lt.1 hstart, ?_⟩
          split at h
          · rename_i m hm
            refine ⟨m, hm, ?_⟩
            split at h
            · exact .inl (by assumption)
            · split at h
              · refine .inr fun k => ?_
                rcases lt_or_ge (k : ℚ) (crossingTick threshold start stepSize) with hk | hk
                · exact .inl (le_of_lt_crossingTick hpos (not_lt.1 hstart) hk)
                · have := mul_le_mul_of_nonneg_right hk hpos.le
                  exact .inr (by linarith)
              · cases h
          · cases h

end

/-! ## Sequences -/

theorem sequenceScan_outOfRange {values : List ℚ} {i : Nat}
    (h : sequenceScan num op threshold rate i values = .error (.outOfRange message)) :
    ∀ v ∈ values, op.holds v threshold = false := by
  induction values generalizing i with
  | nil => simp
  | cons v values ih =>
    rw [sequenceScan] at h
    split at h
    · split at h <;> cases h
    · rename_i hv
      exact List.forall_mem_cons.2 ⟨by simpa using hv, ih h⟩

/-! ## Refused thresholds -/

/-- The generators whose values are arithmetic on the tick. -/
def IsArithmetic : GeneratorConfig → Prop
  | .sawtooth .. | .spike .. | .step .. | .sequence .. => True
  | _ => False

/-- The thresholds that a generator passes and the compiler refuses as out of range.

A ramp that is as good as flat is refused whatever the threshold; one that falls (or has
a negative period) is refused though it comes to the threshold in the end. A spike that
points down passes the threshold at its peak, or outside of it. A step of no positive
size can start above the threshold, and one that wraps can come between the threshold and
its bound on a later pass than the first. -/
def Misses (generator : GeneratorConfig) (op : Operator) (threshold rate : ℚ) : Prop :=
  match generator with
  | .sawtooth baseline ceiling period =>
    let last := rampLast baseline ceiling (period * rate)
    period ≠ 0 ∧ (|ceiling - baseline| < epsilon ∧
        (op.holds baseline threshold = true ∨ op.holds last threshold = true) ∨
      epsilon ≤ |ceiling - baseline| ∧
        (op = .greaterThan ∧ baseline ≤ threshold ∧ ceiling ≤ threshold ∧ threshold < last ∨
          op = .lessThan ∧ last < threshold ∧ threshold ≤ baseline))
  | .spike baseline height duration interval =>
    op = .greaterThan ∧ baseline + height ≤ threshold ∧ threshold < baseline ∧
        duration * rate ≤ interval * rate - measure 1 (interval * rate) ∨
      op = .lessThan ∧ baseline + height < threshold ∧ threshold ≤ baseline ∧ 0 < duration
  | .step start stepSize max =>
    op = .greaterThan ∧
      match max.filter fun m => start.getD 0 < m with
      | some m => threshold < m - measure stepSize (m - start.getD 0) ∧ (stepSize ≤ 0 ∨
          start.getD 0 ≤ threshold ∧
            ∀ k : Nat, start.getD 0 + k * stepSize ≤ threshold ∨ m ≤ start.getD 0 + k * stepSize)
      | none => stepSize ≤ 0 ∧ threshold < start.getD 0
  | _ => False

section

variable {num : ℚ → String} {op : Operator} {threshold rate : ℚ} {message : String} {baseline : ℚ}

theorem sawtooth_misses_iff {ceiling period : ℚ} (hrate : 0 < rate)
    (h : sawtoothCrossingSecs num op threshold baseline ceiling period = .error (.outOfRange message)) :
    (∃ n, Satisfies (Sawtooth.new baseline ceiling period rate).value op threshold n) ↔
      Misses (.sawtooth baseline ceiling period) op threshold rate := by
  rw [ramp_reaches_iff hrate, Misses]
  rcases sawtooth_outOfRange h with hflat | ⟨hrange, ⟨rfl, hb, hc⟩ | ⟨rfl, hb⟩⟩
  · simp [hflat, not_le.2 hflat]
  · simp only [holds_greaterThan, not_lt.2 hrange, hrange, hb, hc, not_lt.2 hb]
    simp
  · simp only [holds_lessThan, not_lt.2 hrange, hrange, hb, not_lt.2 hb]
    simp

theorem spike_misses_iff {height duration interval : ℚ} (hrate : 0 < rate)
    (hinterval : 0 < interval)
    (h : spikeCrossingSecs num op threshold baseline height duration = .error (.outOfRange message)) :
    (∃ n, Satisfies (SpikeGenerator.new baseline height duration interval rate).value op threshold n) ↔
      Misses (.spike baseline height duration interval) op threshold rate := by
  rw [spike_reaches_iff hrate hinterval, Misses]
  rcases spike_outOfRange h with ⟨rfl, hpeak⟩ | ⟨rfl, hbaseline⟩
  · simp [holds_greaterThan, hpeak, not_lt.2 hpeak]
  · simp [holds_lessThan, hbaseline, not_lt.2 hbaseline]

theorem step_misses_iff {start max : Option ℚ} {stepSize : ℚ} (hrate : 0 < rate)
    (h : stepCrossingSecs num op threshold (start.getD 0) stepSize max rate =
      .error (.outOfRange message)) :
    (∃ n, Satisfies (value ⟨start.getD 0, stepSize, max⟩) op threshold n) ↔
      Misses (.step start stepSize max) op threshold rate := by
  obtain ⟨rfl, hcase⟩ := step_outOfRange hrate h
  rw [Misses, and_iff_right rfl]
  cases hmax : max.filter fun m => start.getD 0 < m with
  | some m =>
    rw [step_reaches_iff hmax]
    refine ⟨fun htop => ⟨htop, ?_⟩, fun hmiss => hmiss.1⟩
    rcases hcase with hstep | ⟨hstep, hstart, m', hm', hwrap⟩
    · exact .inl hstep
    · cases hmax.symm.trans hm'
      refine .inr ⟨hstart, hwrap.resolve_left fun hle => ?_⟩
      -- The wrapped values stay below the bound.
      have hm : start.getD 0 < m := by simpa using (Option.filter_eq_some_iff.1 hmax).2
      have := measure_pos stepSize (show 0 < m - start.getD 0 by linarith)
      linarith
  | none =>
    rcases hcase with hstep | ⟨-, -, m', hm', -⟩
    · rw [step_falling_reaches_iff hmax hstep]
      exact (and_iff_right hstep).symm
    · rw [hmax] at hm'
      cases hm'

theorem sequence_misses_iff {values : List ℚ} {repeats : Option Bool} {g : SequenceGenerator}
    (hrate : 0 < rate) (hg : SequenceGenerator.new values (repeats.getD true) = .ok g)
    (h : sequenceCrossingSecs num op threshold values rate = .error (.outOfRange message)) :
    (∃ n, Satisfies g.value op threshold n) ↔ Misses (.sequence values repeats) op threshold rate := by
  show _ ↔ False
  rw [iff_false]
  rw [SequenceGenerator.new] at hg
  split at hg
  · cases hg
  · rename_i hne
    cases hg
    rw [sequenceCrossingSecs, if_neg (not_le.2 hrate), if_neg (by simpa using hne)] at h
    rintro ⟨n, hn⟩
    rw [Satisfies] at hn
    cases hv : SequenceGenerator.value ⟨values, repeats.getD true, hne⟩ n with
    | none =>
      rw [hv] at hn
      cases hn
    | some v =>
      rw [hv, Option.any_some, sequenceScan_outOfRange h v (List.mem_of_getElem? hv)] at hn
      cases hn

end

/-- A threshold that is refused as out of range is passed by no tick, except where the
compiler misses it. -/
theorem outOfRange_iff {std : StdParse} {others : OtherGenerators} {generator : GeneratorConfig}
    {g : ValueGenerator} {op : Operator} {threshold rate : ℚ} {message : String}
    (hkind : IsArithmetic generator) (hrate : 0 < rate)
    (hg : createGenerator others generator rate = .ok g)
    (h : crossingSecs std generator op threshold rate = .error (.outOfRange message)) :
    (∀ n, ¬ Satisfies g op threshold n) ↔ ¬ Misses generator op threshold rate := by
  rw [← not_exists]
  refine not_congr ?_
  cases generator with
  | sawtooth baseline ceiling period =>
    cases hg
    exact sawtooth_misses_iff hrate h
  | spike baseline height duration interval =>
    obtain ⟨hinterval, hg⟩ := check_ok hg
    obtain ⟨-, hg⟩ := check_ok hg
    cases hg
    exact spike_misses_iff hrate (not_le.1 hinterval) h
  | step start stepSize max =>
    cases hg
    exact step_misses_iff hrate h
  | sequence values repeats =>
    rw [createGenerator] at hg
    cases hseq : SequenceGenerator.new values (repeats.getD true) with
    | error e =>
      rw [hseq] at hg
      cases hg
    | ok sg =>
      rw [hseq] at hg
      cases hg
      exact sequence_misses_iff hrate hseq h
  | _ => cases hkind

def isOutOfRange : Except TimingError ℚ → Bool
  | .error (.outOfRange _) => true
  | _ => false

theorem exists_message {x : Except TimingError ℚ} (h : isOutOfRange x = true) :
    ∃ message, x = .error (.outOfRange message) := by
  unfold isOutOfRange at h
  split at h
  · exact ⟨_, rfl⟩
  · cases h

/-- A spike of -5 from a baseline of 10 is refused as never above 8, and is above it at every
tick outside the spike. -/
theorem outOfRange_spike : (∃ message,
      crossingSecs decimalParse (.spike 10 (-5) 10 60) .greaterThan 8 1 = .error (.outOfRange message)) ∧
    createGenerator noOthers (.spike 10 (-5) 10 60) 1 = .ok (SpikeGenerator.new 10 (-5) 10 60 1).value ∧
    Satisfies (SpikeGenerator.new 10 (-5) 10 60 1).value .greaterThan 8 10 :=
  ⟨exists_message (by decide +kernel), rfl, by decide +kernel⟩

/-- A step of 4 that wraps at 11 does not exceed 12. -/
theorem outOfRange_step_bound : (∃ message, crossingSecs decimalParse (.step none 4 (some 11)) .greaterThan 12 1 =
      .error (.outOfRange message)) ∧
    ((∀ n, ¬ Satisfies (value ⟨0, 4, some 11⟩) .greaterThan 12 n) ↔
      ¬ Misses (.step none 4 (some 11)) .greaterThan 12 1) := by
  have h : ∃ message, crossingSecs decimalParse (.step none 4 (some 11)) .greaterThan 12 1 =
      .error (.outOfRange message) := exists_message (by decide)
  have hg : createGenerator noOthers (.step none 4 (some 11)) 1 =
    .ok (value ⟨0, 4, some 11⟩) := rfl
  obtain ⟨message, hmessage⟩ := h
  exact ⟨⟨message, hmessage⟩, outOfRange_iff trivial one_pos hg hmessage⟩

end Sonda.Compiler
