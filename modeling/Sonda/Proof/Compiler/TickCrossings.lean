import Sonda.Proof.Compiler.Unreachable

/-!
# Crossings at a tick

A step and a sequence pass a threshold at a tick: the time that the compiler has for it is
that of the least tick that does (`crossing_least`).
-/

namespace Sonda.Compiler

open Framework Generator

variable {num : ℚ → String} {op : Operator} {threshold rate t : ℚ}

/-- The time is that of the least tick that satisfies the comparison. -/
def AtLeastTick (g : ValueGenerator) (op : Operator) (threshold rate t : ℚ) : Prop :=
  ∃ n : Nat, t * rate = n ∧ IsLeast {k | Satisfies g op threshold k} n

/-- At the crossing tick, the first pass is above the threshold. -/
theorem crossingTick_reaches (threshold start : ℚ) {stepSize : ℚ} (hstep : 0 < stepSize) :
    ∃ n : Nat, crossingTick threshold start stepSize = n ∧ threshold < start + n * stepSize := by
  have hceil := Int.le_ceil ((threshold - start) / stepSize)
  rw [div_le_iff₀ hstep] at hceil
  unfold crossingTick
  dsimp only
  split
  · rename_i hle
    have := mul_nonpos_of_nonpos_of_nonneg hle hstep.le
    exact ⟨1, Nat.cast_one.symm, by rw [Nat.cast_one]; linarith⟩
  · rename_i hpos
    obtain ⟨n, hn⟩ := Int.eq_ofNat_of_zero_le (by exact_mod_cast (not_le.1 hpos).le)
    rw [hn, Int.cast_natCast] at hceil ⊢
    split
    · exact ⟨n + 1, (Nat.cast_succ n).symm, by rw [Nat.cast_succ]; linarith⟩
    · exact ⟨n, rfl, not_le.1 (by assumption)⟩

theorem step_least {g : StepGenerator}
    (h : stepCrossingSecs num op threshold g.start g.stepSize g.max rate = .ok t) :
    AtLeastTick g.value op threshold rate t := by
  obtain ⟨hrate, h⟩ := check_ok h
  cases op with
  | lessThan => cases h
  | greaterThan =>
    obtain ⟨hzero, h⟩ := check_ok h
    obtain ⟨hneg, h⟩ := check_ok h
    obtain ⟨hstart, h⟩ := check_ok h
    have hpos : 0 < g.stepSize := lt_of_le_of_ne (not_lt.1 hneg) (Ne.symm hzero)
    obtain ⟨n, hn, habove⟩ := crossingTick_reaches threshold g.start hpos
    -- Up to the crossing tick nothing wraps.
    obtain ⟨ht, hvalue⟩ : t = n / rate ∧ ∀ k ≤ n, g.value k = some (g.start + k * g.stepSize) := by
      rw [hn] at h
      split at h
      · rename_i m hm
        obtain ⟨-, h⟩ := check_ok h
        obtain ⟨hwrap, h⟩ := check_ok h
        refine ⟨(Except.ok.inj h).symm, fun k hk => ?_⟩
        have hle := mul_le_mul_of_nonneg_right (Nat.cast_le (α := ℚ).2 hk) hpos.le
        rw [step_value_some hm, residue_of_lt (by positivity) (by linarith [not_le.1 hwrap])]
      · exact ⟨(Except.ok.inj h).symm, fun k _ => step_value_none (by assumption) k⟩
    refine ⟨n, by rw [ht, div_mul_cancel₀ _ (not_le.1 hrate).ne'], ?_, fun k hk => ?_⟩
    · exact (satisfies_some (hvalue n le_rfl)).2 (holds_greaterThan.2 habove)
    · by_contra hlt
      have hkn := not_le.1 hlt
      have hbelow := le_of_lt_crossingTick (k := k) hpos (not_lt.1 hstart) (by rw [hn]; exact_mod_cast hkn)
      exact hbelow.not_gt (holds_greaterThan.1 ((satisfies_some (hvalue k hkn.le)).1 hk))

theorem sequenceScan_ok {values : List ℚ} {i : Nat}
    (h : sequenceScan num op threshold rate i values = .ok t) :
    ∃ n v, t = (i + n : Nat) / rate ∧ values[n]? = some v ∧ op.holds v threshold = true ∧
      ∀ k < n, ∀ v ∈ values[k]?, op.holds v threshold = false := by
  induction values generalizing i with
  | nil => cases h
  | cons v values ih =>
    rw [sequenceScan] at h
    split at h
    · rename_i hv
      obtain ⟨-, h⟩ := check_ok h
      exact ⟨0, v, (Except.ok.inj h).symm, rfl, hv, fun k hk => absurd hk (Nat.not_lt_zero k)⟩
    · rename_i hv
      obtain ⟨n, w, rfl, hw, hholds, hbefore⟩ := ih h
      refine ⟨n + 1, w, by rw [Nat.add_right_comm]; rfl, hw, hholds, fun k hk => ?_⟩
      cases k with
      | zero => simpa using hv
      | succ k => exact hbefore k (Nat.lt_of_succ_lt_succ hk)

/-- The first pass of a sequence. -/
theorem sequence_value (g : SequenceGenerator) {k : Nat} (hk : k < g.values.length) :
    g.value k = g.values[k]? := by
  rw [SequenceGenerator.value, SequenceGenerator.index, Nat.mod_eq_of_lt hk,
    Nat.min_eq_left (Nat.le_sub_one_of_lt hk), ite_self]

theorem sequence_least {g : SequenceGenerator}
    (h : sequenceCrossingSecs num op threshold g.values rate = .ok t) :
    AtLeastTick g.value op threshold rate t := by
  obtain ⟨hrate, h⟩ := check_ok h
  obtain ⟨-, h⟩ := check_ok h
  obtain ⟨n, v, rfl, hv, hholds, hbefore⟩ := sequenceScan_ok h
  have hn := (List.getElem?_eq_some_iff.1 hv).1
  refine ⟨n, by rw [Nat.zero_add, div_mul_cancel₀ _ (not_le.1 hrate).ne'],
    (satisfies_some ((sequence_value g hn).trans hv)).2 hholds, fun k hk => ?_⟩
  by_contra hlt
  have hkn := not_le.1 hlt
  obtain ⟨w, hw, hk⟩ := (Option.any_eq_true _ _).1 hk
  rw [sequence_value g (hkn.trans hn)] at hw
  exact absurd hk (by rw [hbefore k hkn w hw]; decide)

/-- Where the compiler has a step or a sequence cross a threshold, it does so at a tick, and
at no tick before. -/
theorem crossing_least (num : ℚ → String) (op : Operator) (threshold rate t : ℚ) :
    (∀ g : StepGenerator, stepCrossingSecs num op threshold g.start g.stepSize g.max rate = .ok t →
      AtLeastTick g.value op threshold rate t) ∧
    ∀ g : SequenceGenerator, sequenceCrossingSecs num op threshold g.values rate = .ok t →
      AtLeastTick g.value op threshold rate t :=
  ⟨fun _ => step_least, fun _ => sequence_least⟩

/-- A step of 4 exceeds 8 at tick 3. -/
theorem crossing_least_step : AtLeastTick (StepGenerator.value ⟨0, 4, some 13⟩) .greaterThan 8 2 (3 / 2) :=
  (crossing_least (fun _ => "") .greaterThan 8 2 (3 / 2)).1 ⟨0, 4, some 13⟩
    (ok_of_toOption (by decide +kernel))

end Sonda.Compiler
