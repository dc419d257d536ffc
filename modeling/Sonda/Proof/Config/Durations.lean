import Sonda.Framework.Fallible
import Sonda.Impl.Config.Aliases

/-!
# Durations in digits

A duration written as digits and a unit reads as what it says (`parseDuration_digits`);
so do the default durations of the aliases (`durationToSecs_defaults`). What else is
accepted is read exactly from a microsecond on and below `2 ^ 64` of them
(`parseDuration_exact_iff`).
-/

namespace Sonda.Config

open Framework

/-- Reads whole numbers, written in digits. -/
def decimalParse : StdParse where
  quote := textString
  parseF64 ds := if ds ≠ [] ∧ ds.all isDigit then some (.finite (decimalValue ds)) else none
  trim := id
  showF64 _ := []
  digits ds hne hd := by
    rw [if_pos ⟨hne, List.all_eq_true.2 hd⟩]

theorem parseDuration_of {std : StdParse} {s numeric : Text} {unit value : ℚ}
    (hunit : durationUnit s = some (numeric, unit)) (hne : numeric ≠ [])
    (hsign : numeric.head? ≠ some 0x2d) (hvalue : std.parseF64 numeric = some (.finite value))
    (hpos : 0 < value) (hle : value * unit ≤ 2 ^ 64) :
    parseDuration std s = .ok (fromMicros (value * unit * 1000)) := by
  have hs : s ≠ [] := by
    rintro rfl
    cases hunit
  unfold parseDuration
  rw [if_neg (by simpa using hs), hunit]
  dsimp only
  rw [if_neg (by simpa using hne), if_neg (by simpa using hsign), hvalue]
  dsimp only
  rw [if_neg (not_le.2 hpos), if_neg (not_lt.2 hle)]

theorem parseDuration_digits (std : StdParse) {s ds : Text} {unit : ℚ}
    (hunit : durationUnit s = some (ds, unit)) (hds : ds ≠ []) (hdigits : ds.all isDigit = true)
    (hpos : 0 < decimalValue ds) (hle : decimalValue ds * unit ≤ 2 ^ 64) :
    parseDuration std s = .ok (fromMicros (decimalValue ds * unit * 1000)) := by
  refine parseDuration_of hunit hds (fun h => ?_) (std.digits ds hds (List.all_eq_true.1 hdigits))
    (by exact_mod_cast hpos) hle
  exact absurd (List.all_eq_true.1 hdigits 0x2d (List.mem_of_mem_head? h)) (by decide)

theorem durationToSecs_digits (std : StdParse) {s ds : Text} {unit secs : ℚ}
    (hunit : durationUnit s = some (ds, unit)) (hds : ds ≠ []) (hdigits : ds.all isDigit = true)
    (hpos : 0 < decimalValue ds) (hle : decimalValue ds * unit ≤ 2 ^ 64)
    (hsecs : asSecs (fromMicros (decimalValue ds * unit * 1000)) = secs) :
    durationToSecs std s = .ok secs := by
  rw [durationToSecs, parseDuration_digits std hunit hds hdigits hpos hle, ← hsecs]
  rfl

/-! ## What is accepted -/

theorem parseDuration_ok {std : StdParse} {s : Text} {d : Nat} (h : parseDuration std s = .ok d) :
    ∃ numeric unit value, durationUnit s = some (numeric, unit) ∧
      std.parseF64 numeric = some (.finite value) ∧ d = fromMicros (value * unit * 1000) := by
  unfold parseDuration at h
  split at h
  · cases h
  split at h
  · cases h
  · rename_i numeric unit hunit
    split at h
    · cases h
    split at h
    · cases h
    split at h
    · cases h
    · rename_i value hvalue
      split at h
      · cases h
      split at h
      · cases h
      exact ⟨numeric, unit, value, hunit, hvalue, (Except.ok.inj h).symm⟩
    · cases h

theorem fromMicros_exact_iff (x : ℚ) :
    0 < fromMicros x ∧ fromMicros x = ⌊x⌋.toNat * 1000 ↔ 1 ≤ x ∧ x < 2 ^ 64 := by
  have hone : 1 ≤ x ↔ 1 ≤ ⌊x⌋ := by
    rw [Int.le_floor, Int.cast_one]
  have hmax : x < 2 ^ 64 ↔ ⌊x⌋ < 2 ^ 64 := by
    rw [Int.floor_lt]
    norm_num
  rw [hone, hmax]
  show 0 < min ⌊x⌋.toNat (2 ^ 64 - 1) * 1000 ∧ min ⌊x⌋.toNat (2 ^ 64 - 1) * 1000 = _ ↔ _
  omega

/-- An accepted duration is positive and the number of microseconds that its text stands for,
exactly when there is one of them and they fit a `u64`. -/
theorem parseDuration_exact_iff (std : StdParse) (s : Text) (d : Nat)
    (h : parseDuration std s = .ok d) :
    ∃ numeric unit value, durationUnit s = some (numeric, unit) ∧
      std.parseF64 numeric = some (.finite value) ∧
      (0 < d ∧ d = ⌊value * unit * 1000⌋.toNat * 1000 ↔
        1 ≤ value * unit * 1000 ∧ value * unit * 1000 < 2 ^ 64) := by
  obtain ⟨numeric, unit, value, hunit, hvalue, rfl⟩ := parseDuration_ok h
  exact ⟨numeric, unit, value, hunit, hvalue, fromMicros_exact_iff _⟩

theorem parseDuration_exact_tenSeconds : ∃ numeric unit value,
    durationUnit tenSeconds = some (numeric, unit) ∧
      decimalParse.parseF64 numeric = some (.finite value) ∧
      (0 < 10000000000 ∧ 10000000000 = ⌊value * unit * 1000⌋.toNat * 1000 ↔
        1 ≤ value * unit * 1000 ∧ value * unit * 1000 < 2 ^ 64) :=
  parseDuration_exact_iff decimalParse tenSeconds 10000000000 (ok_of_toOption (by decide +kernel))

/-- Reads `0.0001` too. -/
def pointParse : StdParse where
  quote := textString
  parseF64 ds := if ds = [0x30, 0x2e, 0x30, 0x30, 0x30, 0x31] then some (.finite (1 / 10000))
    else decimalParse.parseF64 ds
  trim := id
  showF64 _ := []
  digits ds hne hd := by
    rw [if_neg, decimalParse.digits ds hne hd]
    rintro rfl
    exact absurd hd (by decide)

/-- `0.0001ms` is accepted as no time at all, and `10 ^ 18` milliseconds as fewer. -/
theorem parseDuration_inexact :
    parseDuration pointParse [0x30, 0x2e, 0x30, 0x30, 0x30, 0x31, 0x6d, 0x73] = .ok 0 ∧
    parseDuration pointParse (decimal (10 ^ 18) ++ [0x6d, 0x73]) = .ok ((2 ^ 64 - 1) * 1000) :=
  ⟨ok_of_toOption (by decide +kernel), ok_of_toOption (by decide +kernel)⟩

/-- The durations that aliases default to. -/
theorem durationToSecs_defaults (std : StdParse) :
    durationToSecs std tenSeconds = .ok 10 ∧ durationToSecs std fiveSeconds = .ok 5 ∧
      durationToSecs std fiveMinutes = .ok (5 * 60) ∧ durationToSecs std tenMinutes = .ok (10 * 60) := by
  refine ⟨?_, ?_, ?_, ?_⟩
  all_goals
    exact durationToSecs_digits std rfl (by decide) rfl (by decide) (by decide +kernel)
      (by decide +kernel)

end Sonda.Config
