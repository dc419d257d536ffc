import Sonda.Proof.Compiler.Crossings

/-!
# Ramp and spike crossings

The compiler crosses an alias where it crosses the generator that the alias desugars to
(`crossingSecs_desugar`). A spike is crossed where it ends (`spike_crosses`). A ramp is
crossed where the compiler says if it rises; one that falls is above the threshold from
the start (`ramp_crosses_iff`).
-/

namespace Sonda.Compiler

open Framework Generator
open Config

variable {num : ℚ → String} {op : Operator}
  {threshold baseline t rate ceiling period duration value height interval : ℚ}

/-! ## Aliases -/

theorem holds_lessThan : Operator.lessThan.holds value threshold = true ↔ value < threshold := by
  simp [Operator.holds]

theorem holds_greaterThan :
    Operator.greaterThan.holds value threshold = true ↔ threshold < value := by
  simp [Operator.holds]

/-- Whether a generator is a ramp or a spike. -/
def IsRampOrSpike : GeneratorConfig → Prop
  | .sawtooth .. | .spike .. => True
  | _ => False

/-- A ramp or a spike is crossed where the generator that it was desugared from is. -/
theorem crossingSecs_desugar {std : StdParse} {config out : ScenarioConfig} (op : Operator) (threshold : ℚ)
    (hout : desugarScenarioConfig std config = .ok out) (hkind : IsRampOrSpike out.generator) :
    out.rate = config.rate ∧ crossingSecs std config.generator op threshold config.rate =
      crossingSecs std out.generator op threshold config.rate := by
  unfold desugarScenarioConfig at hout
  split at hout
  · obtain ⟨generator, hflap, hout⟩ := bind_ok hout
    cases hout
    obtain ⟨-, h⟩ := check_ok hflap
    obtain ⟨_, -, h⟩ := bind_ok h
    obtain ⟨_, -, h⟩ := bind_ok h
    obtain ⟨-, h⟩ := check_ok h
    obtain ⟨_, -, h⟩ := bind_ok h
    cases h
    cases hkind
  · rename_i hgen
    obtain ⟨period, hperiod, hout⟩ := bind_ok hout
    cases hout
    rw [hgen]
    unfold crossingSecs
    dsimp only
    rw [durationOrDefault_ok (durationToSecs_defaults std).2.2.1 hperiod]
    exact ⟨rfl, rfl⟩
  · rename_i hgen
    obtain ⟨period, hperiod, hout⟩ := bind_ok hout
    obtain ⟨_, -, hout⟩ := bind_ok hout
    cases hout
    rw [hgen]
    unfold crossingSecs
    dsimp only
    rw [durationOrDefault_ok (durationToSecs_defaults std).2.2.2 hperiod]
    exact ⟨rfl, rfl⟩
  · rename_i hgen
    obtain ⟨period, hperiod, hout⟩ := bind_ok hout
    cases hout
    rw [hgen]
    unfold crossingSecs applyJitterIfUnset
    dsimp only
    rw [durationOrDefault_ok (durationToSecs_defaults std).2.2.1 hperiod]
    exact ⟨rfl, rfl⟩
  · obtain ⟨period, hperiod, hout⟩ := bind_ok hout
    cases hout
    cases hkind
  · rename_i hgen
    obtain ⟨duration, hduration, hout⟩ := bind_ok hout
    obtain ⟨_, -, hout⟩ := bind_ok hout
    cases hout
    rw [hgen]
    unfold crossingSecs
    dsimp only
    rw [durationOrDefault_ok (durationToSecs_defaults std).1 hduration]
    exact ⟨rfl, rfl⟩
  · cases hout
    exact ⟨rfl, rfl⟩

/-! ## Ramps -/

/-- Every tick before the time fails the comparison, and every one from then to the end of
the period satisfies it. -/
structure RampCrossed (g : ValueGenerator) (rate : ℚ) (op : Operator) (threshold t period : ℚ) : Prop where
  before : ∀ n : Nat, n / rate < t → ¬ Satisfies g op threshold n
  after : ∀ n : Nat, t < n / rate → n / rate < period → Satisfies g op threshold n

theorem ends_eq (baseline ceiling : ℚ) :
    (if baseline ≤ ceiling then (baseline, ceiling) else (ceiling, baseline)) =
      (min baseline ceiling, max baseline ceiling) := by
  split
  · rename_i hle
    rw [min_eq_left hle, max_eq_right hle]
  · rename_i hle
    rw [min_eq_right (not_le.1 hle).le, max_eq_left (not_le.1 hle).le]

theorem sawtoothCrossingSecs_ok
    (h : sawtoothCrossingSecs num op threshold baseline ceiling period = .ok t) :
    op = .greaterThan ∧ baseline ≠ ceiling ∧ min baseline ceiling ≤ threshold ∧
      threshold < max baseline ceiling ∧ t = (threshold - baseline) / (ceiling - baseline) * period := by
  unfold sawtoothCrossingSecs at h
  obtain ⟨hrange, h⟩ := check_ok h
  have hne : baseline ≠ ceiling := by
    rintro rfl
    exact hrange (by rw [sub_self, abs_zero]; exact by norm_num [epsilon])
  rw [ends_eq] at h
  cases op with
  | greaterThan =>
    obtain ⟨hhi, h⟩ := check_ok h
    obtain ⟨hlo, h⟩ := check_ok h
    cases h
    exact ⟨rfl, hne, not_lt.1 hlo, not_le.1 hhi, rfl⟩
  | lessThan =>
    obtain ⟨-, h⟩ := check_ok h
    obtain ⟨-, h⟩ := check_ok h
    obtain ⟨-, h⟩ := check_ok h
    cases h

/-- The first period of a ramp. -/
theorem sawtooth_value (hrate : 0 < rate) {n : Nat} (hn : n / rate < period) :
    (Sawtooth.new baseline ceiling period rate).value n =
      some (baseline + n / rate / period * (ceiling - baseline)) := by
  have hperiod : 0 < period := lt_of_le_of_lt (div_nonneg (Nat.cast_nonneg n) hrate.le) hn
  have hticks : 0 < period * rate := mul_pos hperiod hrate
  rw [div_lt_iff₀ hrate] at hn
  show (frem n (period * rate)).map _ = _
  rw [frem, if_neg hticks.ne', abs_of_pos hticks, residue_of_lt (Nat.cast_nonneg n) hn, Option.map_some]
  simp only [Sawtooth.new]
  rw [div_div, mul_comm period rate]

/-- A ramp is crossed where the compiler says exactly if it rises, or has no period. -/
theorem ramp_crosses_iff (hrate : 0 < rate)
    (h : sawtoothCrossingSecs num op threshold baseline ceiling period = .ok t) :
    RampCrossed (Sawtooth.new baseline ceiling period rate).value rate op threshold t period ↔
      baseline < ceiling ∨ period ≤ 0 := by
  obtain ⟨rfl, hne, hlo, hhi, rfl⟩ := sawtoothCrossingSecs_ok h
  rcases le_or_gt period 0 with hperiod | hperiod
  · -- Without a period there is no tick before the time or before the period's end.
    have hfraction : 0 ≤ (threshold - baseline) / (ceiling - baseline) := by
      rcases lt_or_gt_of_ne hne with hlt | hgt
      · rw [min_eq_left hlt.le] at hlo
        exact div_nonneg (by linarith) (by linarith)
      · rw [max_eq_left hgt.le] at hhi
        exact div_nonneg_of_nonpos (by linarith) (by linarith)
    have hticks : ∀ n : Nat, ¬ n / rate < 0 := fun n => not_lt.2 (div_nonneg (Nat.cast_nonneg n) hrate.le)
    refine iff_of_true ⟨fun n hn => ?_, fun n _ hn => ?_⟩ (.inr hperiod)
    · exact absurd (lt_of_lt_of_le hn (mul_nonpos_of_nonneg_of_nonpos hfraction hperiod)) (hticks n)
    · exact absurd (lt_of_lt_of_le hn hperiod) (hticks n)
  · rcases lt_or_gt_of_ne hne with hup | hdown
    · rw [max_eq_right hup.le] at hhi
      have hrange : 0 < ceiling - baseline := by linarith
      have htime : (threshold - baseline) / (ceiling - baseline) * period < period := by
        have : (threshold - baseline) / (ceiling - baseline) < 1 := (div_lt_one hrange).2 (by linarith)
        nlinarith
      -- On the ramp, the value exceeds the threshold when the time is beyond the crossing.
      have hvalue : ∀ n : Nat, n / rate < period →
          (Satisfies (Sawtooth.new baseline ceiling period rate).value .greaterThan threshold n ↔
            (threshold - baseline) / (ceiling - baseline) * period < n / rate) := by
        intro n hn
        rw [satisfies_some (sawtooth_value hrate hn), holds_greaterThan, ← sub_lt_iff_lt_add',
          ← div_lt_iff₀ hrange, lt_div_iff₀ hperiod]
      refine iff_of_true ⟨fun n hn => ?_, fun n hn hend => (hvalue n hend).2 hn⟩ (.inl hup)
      rw [hvalue n (hn.trans htime)]
      exact hn.not_gt
    · -- A ramp that falls starts above the threshold.
      rw [max_eq_left hdown.le] at hhi
      have htime : 0 < (threshold - baseline) / (ceiling - baseline) * period :=
        mul_pos (div_pos_of_neg_of_neg (by linarith) (by linarith)) hperiod
      refine iff_of_false (fun hcrossed => ?_) ?_
      · refine hcrossed.before 0 (by simpa using htime) ?_
        rw [satisfies_some (sawtooth_value hrate (by simpa using hperiod)), holds_greaterThan]
        simpa using hhi
      · rintro (h | h)
        · linarith
        · linarith

/-! ## Spikes -/

/-- Every tick before the time fails the comparison, and every one from it to the next spike
satisfies it. -/
structure SpikeCrossed (g : ValueGenerator) (rate : ℚ) (op : Operator) (threshold t interval : ℚ) : Prop where
  before : ∀ n : Nat, n / rate < t → ¬ Satisfies g op threshold n
  after : ∀ n : Nat, t ≤ n / rate → n / rate < interval → Satisfies g op threshold n

theorem spikeCrossingSecs_ok
    (h : spikeCrossingSecs num op threshold baseline height duration = .ok t) :
    op = .lessThan ∧ baseline < threshold ∧ threshold ≤ baseline + height ∧ t = duration := by
  cases op with
  | greaterThan =>
    obtain ⟨-, h⟩ := check_ok h
    obtain ⟨-, h⟩ := check_ok h
    obtain ⟨-, h⟩ := check_ok h
    cases h
  | lessThan =>
    obtain ⟨-, h⟩ := check_ok h
    obtain ⟨hhi, h⟩ := check_ok h
    split at h
    · rename_i hlt
      cases h
      refine ⟨rfl, hlt, ?_, rfl⟩
      rcases le_max_iff.1 (not_lt.1 hhi) with hb | hb
      · exact absurd hb (not_le.2 hlt)
      · exact hb
    · cases h

/-- A spike is up while its ticks last. -/
theorem spikeGenerator_value (g : SpikeGenerator) (hticks : g.intervalTicks ≠ 0) (n : Nat) :
    g.value n = some (if residue n |g.intervalTicks| < g.durationTicks then g.baseline + g.magnitude
      else g.baseline) := by
  rw [SpikeGenerator.value, frem, if_neg hticks, Option.any_some]
  by_cases hup : residue n |g.intervalTicks| < g.durationTicks
  · rw [if_pos hup, if_pos (decide_eq_true hup)]
  · rw [if_neg hup, if_neg (by simpa only [decide_eq_true_eq] using hup)]

theorem spike_value {magnitude : ℚ} (hticks : interval * rate ≠ 0) (n : Nat) :
    (SpikeGenerator.new baseline magnitude duration interval rate).value n =
      some (if residue n |interval * rate| < duration * rate then baseline + magnitude else baseline) :=
  spikeGenerator_value _ hticks n

/-- A spike is crossed where it ends. -/
theorem spike_crosses (hrate : 0 < rate) (hinterval : 0 < interval)
    (h : spikeCrossingSecs num op threshold baseline height duration = .ok t) :
    SpikeCrossed (SpikeGenerator.new baseline height duration interval rate).value rate op threshold t
      interval := by
  obtain ⟨rfl, hbaseline, hpeak, rfl⟩ := spikeCrossingSecs_ok h
  have hticks : 0 < interval * rate := mul_pos hinterval hrate
  refine ⟨fun n hn => ?_, fun n hn hend => ?_⟩
  · rw [div_lt_iff₀ hrate] at hn
    have hup := lt_of_le_of_lt (residue_le_self (Nat.cast_nonneg n) hticks) hn
    rw [satisfies_some (spike_value hticks.ne' n), holds_lessThan, abs_of_pos hticks, if_pos hup, not_lt]
    exact hpeak
  · rw [le_div_iff₀ hrate] at hn
    rw [div_lt_iff₀ hrate] at hend
    rw [satisfies_some (spike_value hticks.ne' n), holds_lessThan, abs_of_pos hticks,
      residue_of_lt (Nat.cast_nonneg n) hend, if_neg (not_lt.2 hn)]
    exact hbaseline

/-! ## Crossings -/

/-- For every ramp and every spike, written out or as an alias, and every threshold that the
compiler has it cross: a ramp crosses it there exactly if it rises or has no period, and a
spike always does. -/
theorem ramp_or_spike_crosses {std : StdParse} {others : OtherGenerators} {config out : ScenarioConfig}
    {g : ValueGenerator} {op : Operator} {threshold t : ℚ} (hrate : 0 < config.rate)
    (hout : desugarScenarioConfig std config = .ok out)
    (hg : createGenerator others out.generator out.rate = .ok g)
    (ht : crossingSecs std config.generator op threshold config.rate = .ok t) :
    (∀ baseline ceiling period, out.generator = .sawtooth baseline ceiling period →
      (RampCrossed g config.rate op threshold t period ↔ baseline < ceiling ∨ period ≤ 0)) ∧
    ∀ baseline height duration interval, out.generator = .spike baseline height duration interval →
      SpikeCrossed g config.rate op threshold t interval := by
  constructor
  · intro baseline ceiling period hgen
    obtain ⟨hsame, hcrossing⟩ := crossingSecs_desugar op threshold hout (by rw [hgen]; trivial)
    rw [hcrossing, hgen] at ht
    rw [hgen, hsame] at hg
    cases hg
    exact ramp_crosses_iff hrate ht
  · intro baseline height duration interval hgen
    obtain ⟨hsame, hcrossing⟩ := crossingSecs_desugar op threshold hout (by rw [hgen]; trivial)
    rw [hcrossing, hgen] at ht
    rw [hgen, hsame] at hg
    obtain ⟨hinterval, hg⟩ := check_ok hg
    obtain ⟨-, hg⟩ := check_ok hg
    cases hg
    exact spike_crosses hrate (not_le.1 hinterval) ht

/-- A ramp that falls from 100 to 0 in ten seconds, at one tick a second. -/
def fallingRamp : ScenarioConfig := ⟨.sawtooth 100 0 10, 1, none, none, none⟩

/-- The compiler has it exceed 50 at five seconds; it does so from the start. -/
theorem ramp_crosses_falling : ∃ g, desugarScenarioConfig decimalParse fallingRamp = .ok fallingRamp ∧
    createGenerator noOthers fallingRamp.generator fallingRamp.rate = .ok g ∧
    crossingSecs decimalParse fallingRamp.generator .greaterThan 50 fallingRamp.rate = .ok 5 ∧
    (0 : ℕ) / fallingRamp.rate < 5 ∧ Satisfies g .greaterThan 50 0 :=
  ⟨(Sawtooth.new 100 0 10 1).value, rfl, rfl, ok_of_toOption (by decide +kernel),
    by decide +kernel,
    by decide +kernel⟩

/-- A saturation with the defaults: from 0 to 100 in five minutes. -/
def saturating : ScenarioConfig := ⟨.saturation none none none, 1, none, none, none⟩

theorem ramp_crosses_saturating :
    (desugarScenarioConfig decimalParse saturating =
        .ok { saturating with generator := .sawtooth 0 100 300 } ∧
      crossingSecs decimalParse saturating.generator .greaterThan 50 1 = .ok 150) ∧
    (RampCrossed (Sawtooth.new 0 100 300 1).value 1 .greaterThan 50 150 300 ↔
      (0 : ℚ) < 100 ∨ (300 : ℚ) ≤ 0) := by
  have hout : desugarScenarioConfig decimalParse saturating =
      .ok { saturating with generator := .sawtooth 0 100 300 } := ok_of_toOption (by decide +kernel)
  have ht : crossingSecs decimalParse saturating.generator .greaterThan 50 1 = .ok 150 :=
    ok_of_toOption (by decide +kernel)
  have hg : createGenerator noOthers (.sawtooth 0 100 300) 1 = .ok (Sawtooth.new 0 100 300 1).value := rfl
  exact ⟨⟨hout, ht⟩, (ramp_or_spike_crosses one_pos hout hg ht).1 0 100 300 rfl⟩

end Sonda.Compiler
