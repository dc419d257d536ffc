import Mathlib.Tactic.Linarith
import Sonda.Impl.Compiler.CompileAfter
import Sonda.Proof.Config.Durations

/-!
# Offsets as texts

The pass writes an entry's total offset as a text that `parse_phase_offset` reads again. What it
reads is the rounded number of milliseconds (`parseDuration_format`); `format_round_trip_iff` says
for which offsets that is the offset, to half a millisecond (`format_loses_offset` is one of which
nothing is left).
-/

namespace Sonda.Compiler

open Framework Config

/-- `std` shows the number in digits and a point, and reads it again. -/
structure Shows (std : StdParse) (x : ℚ) : Prop where
  nonempty : std.showF64 x ≠ []
  chars : ∀ b ∈ std.showF64 x, isDigit b = true ∨ b = 0x2e
  reads : std.parseF64 (std.showF64 x) = some (.finite x)

/-- The units that are written, and their milliseconds. -/
def units : List (UInt8 × ℚ) := [(0x68, 3600000), (0x6d, 60000), (0x73, 1000)]

theorem durationUnit_concat {numeric : Text} (h : ∀ b ∈ numeric, isDigit b = true ∨ b = 0x2e)
    {c : UInt8} {unit : ℚ} (hc : (c, unit) ∈ units) : durationUnit (numeric ++ [c]) = some (numeric, unit) := by
  have hm : [0x6d].isPrefixOf numeric.reverse = false := by
    rw [Bool.eq_false_iff, ne_eq, List.isPrefixOf_iff_prefix]
    intro hpre
    have := h 0x6d (List.mem_reverse.1 (hpre.subset List.mem_cons_self))
    revert this
    decide
  simp only [units, List.mem_cons, Prod.mk.injEq, List.not_mem_nil, or_false] at hc
  rcases hc with ⟨rfl, rfl⟩ | ⟨rfl, rfl⟩ | ⟨rfl, rfl⟩ <;>
    simp [durationUnit, stripSuffix, List.isSuffixOf, List.isPrefixOf, hm]

/-- What is written of at least half a millisecond reads as the milliseconds it is rounded to. -/
theorem parseDuration_format {std : StdParse} {secs : ℚ} {ms : Nat} (hsecs : 0 < secs) (hms : 0 < ms)
    (hround : roundU64 (secs * 1000) = ms) (hshow : Shows std (ms / 1000)) :
    parseDuration std (formatDurationSecs std secs) = .ok (fromMicros (ms * 1000)) := by
  have hle : ms ≤ 2 ^ 64 := hround ▸ (Nat.min_le_right _ _).trans (Nat.sub_le _ _)
  have hleq : (ms : ℚ) ≤ 2 ^ 64 := by exact_mod_cast hle
  -- a whole number of the unit
  have whole {n k : Nat} {c : UInt8} {unit : ℚ} (hc : (c, unit) ∈ units) (hk : unit = k) (hn : n * k = ms) :
      parseDuration std (decimal n ++ [c]) = .ok (fromMicros (ms * 1000)) := by
    have hq : (n : ℚ) * unit = ms := by
      rw [hk]
      exact_mod_cast hn
    have hd : ∀ b ∈ decimal n, isDigit b = true := fun b => isDigit_of_mem_decimal
    have hparse := parseDuration_digits std (durationUnit_concat (fun b hb => .inl (hd b hb)) hc)
      (decimal_ne_nil n) (List.all_eq_true.2 hd)
    rw [decimalValue_decimal, hq] at hparse
    exact hparse (Nat.pos_of_mul_pos_right (hn ▸ hms)) hleq
  unfold formatDurationSecs
  rw [if_neg (not_le.2 hsecs), hround]
  dsimp only
  split
  · split
    · exact whole (by simp [units]) (by norm_num : (3600000 : ℚ) = (3600000 : Nat)) (by omega)
    split
    · exact whole (by simp [units]) (by norm_num : (60000 : ℚ) = (60000 : Nat)) (by omega)
    · exact whole (by simp [units]) (by norm_num : (1000 : ℚ) = (1000 : Nat)) (by omega)
  · rw [if_neg (by omega)]
    have hparse := parseDuration_of (durationUnit_concat hshow.chars (by simp [units] : (0x73, 1000) ∈ units))
      hshow.nonempty (fun h => ?_) hshow.reads (by positivity) (by linarith)
    · rwa [div_mul_cancel₀ _ (by norm_num)] at hparse
    · have := hshow.chars 0x2d (List.mem_of_mem_head? h)
      revert this
      decide

theorem parseDuration_of_phase {std : StdParse} {s : Text} {d : Nat}
    (h : parsePhaseOffset std s = .ok (some d)) : parseDuration std s = .ok d := by
  unfold parsePhaseOffset parseOptionalDuration at h
  split at h
  · rename_i hd
    rw [hd, Option.some.inj (Except.ok.inj h)]
  · repeat' split at h
    all_goals cases h

/-- A positive offset is read as one, to half a millisecond, exactly when it is at least that long
and its microseconds fit a `u64`. -/
theorem format_round_trip_iff (std : StdParse) (secs : ℚ) (hsecs : 0 < secs)
    (hshow : Shows std (roundU64 (secs * 1000) / 1000)) :
    (∃ d, parsePhaseOffset std (formatDurationSecs std secs) = .ok (some d) ∧ 0 < d ∧
      |asSecs d - secs| ≤ 1 / 2000) ↔
      1 / 2000 ≤ secs ∧ secs ≤ (2 ^ 64 - 1) / 1000000 + 1 / 2000 := by
  generalize hround : roundU64 (secs * 1000) = ms at hshow
  obtain ⟨n, hn⟩ := Int.eq_ofNat_of_zero_le (Int.floor_nonneg.2 (by positivity : 0 ≤ secs * 1000 + 1 / 2))
  have hle := Int.floor_le (secs * 1000 + 1 / 2)
  have hlt := Int.lt_floor_add_one (secs * 1000 + 1 / 2)
  rw [hn] at hle hlt
  push_cast at hle hlt
  have hms : ms = min n (2 ^ 64 - 1) := by
    rw [← hround, roundU64, hn]
    rfl
  rcases Nat.eq_zero_or_pos ms with rfl | hpos
  · obtain rfl : n = 0 := by omega
    refine ⟨fun ⟨d, hd, hpos, _⟩ => ?_, fun h => ?_⟩
    · -- the text is that of zero
      have htext : formatDurationSecs std secs = decimal 0 ++ [0x73] := by
        simp [formatDurationSecs, not_le.2 hsecs, hround]
      have hdigits : ∀ b ∈ decimal 0, isDigit b = true := fun b => isDigit_of_mem_decimal
      obtain ⟨numeric, unit, value, hunit, hvalue, rfl⟩ :=
        parseDuration_ok (htext ▸ parseDuration_of_phase hd)
      rw [durationUnit_concat (fun b hb => .inl (hdigits b hb)) (by simp [units] : (0x73, 1000) ∈ units)] at hunit
      cases hunit
      rw [std.digits _ (decimal_ne_nil 0) hdigits, decimalValue_decimal] at hvalue
      cases hvalue
      exact absurd hpos (by decide +kernel)
    · linarith
  · have hparse : parsePhaseOffset std (formatDurationSecs std secs) =
        .ok (some (fromMicros (ms * 1000))) := by
      rw [parsePhaseOffset, parseOptionalDuration, parseDuration_format hsecs hpos hround hshow]
      rfl
    have hd : fromMicros (ms * 1000) = min (n * 1000) (2 ^ 64 - 1) * 1000 := by
      have hfloor : ((ms : ℚ) * 1000).floor = (ms * 1000 : Nat) := by
        exact_mod_cast Int.floor_natCast (R := ℚ) (ms * 1000)
      rw [fromMicros, hfloor]
      omega
    have hone : (1 : ℚ) ≤ n := by exact_mod_cast (by omega : 1 ≤ n)
    rw [hparse, hd]
    simp only [Except.ok.injEq, Option.some.injEq, exists_eq_left', abs_le, asSecs]
    rcases Nat.lt_or_ge (n * 1000) (2 ^ 64) with hfit | hbig
    · have hfit' : (n : ℚ) * 1000 + 1 ≤ 2 ^ 64 := by exact_mod_cast hfit
      rw [Nat.min_eq_left (by omega)]
      push_cast
      refine iff_of_true ⟨by omega, ?_, ?_⟩ ⟨?_, ?_⟩ <;> linarith
    · have hbig' : (2 : ℚ) ^ 64 ≤ n * 1000 := by exact_mod_cast hbig
      rw [Nat.min_eq_right (by omega)]
      refine ⟨fun h => ⟨?_, ?_⟩, fun h => ⟨by norm_num, ?_, ?_⟩⟩ <;> linarith

/-- Shows whole numbers and tenths, and reads them. -/
def tenthsShow : StdParse :=
  { decimalParse with
    parseF64 ds := decimalParse.parseF64 ds <|>
      match ds.span isDigit with
      | (whole, 0x2e :: tenths) => some (.finite (decimalValue whole + decimalValue tenths / 10))
      | _ => none
    showF64 x :=
      if x.den = 1 then decimal x.floor.toNat
      else decimal x.floor.toNat ++ 0x2e :: decimal ((x - x.floor) * 10).floor.toNat
    digits ds hne hd := by rw [decimalParse.digits ds hne hd]; rfl }

theorem tenthsShow_shows : Shows tenthsShow (roundU64 (3 / 2 * 1000) / 1000) where
  nonempty := by decide +kernel
  chars := by decide +kernel
  reads := by with_unfolding_all rfl

theorem format_round_trip_fraction :
    ∃ d, parsePhaseOffset tenthsShow (formatDurationSecs tenthsShow (3 / 2)) = .ok (some d) ∧ 0 < d ∧
      |asSecs d - 3 / 2| ≤ 1 / 2000 :=
  (format_round_trip_iff tenthsShow (3 / 2) (by norm_num) tenthsShow_shows).2 (by norm_num)

/-- A tenth of a millisecond is no delay. -/
theorem format_loses_offset :
    parsePhaseOffset tenthsShow (formatDurationSecs tenthsShow (1 / 10000)) = .ok none :=
  ok_of_toOption (by decide +kernel)

end Sonda.Compiler
