import Mathlib.Data.List.Rotate
import Sonda.Impl.Compiler.CompileAfter
import Sonda.Proof.Config.Durations

/-!
# Crossings and ticks

What a tick of a generator has to do with a threshold (`Satisfies`), the ticks before a
time (`tick_lt_iff`), and the parameters that the compiler and the desugared generator
read from the same texts (`durationOrDefault_ok`).
-/

namespace Sonda.Compiler

open Framework Generator
open Config (Text StdParse durationToSecs flapPhaseSecs)

/-- The comparison holds of what a tick gives. -/
def Satisfies (g : ValueGenerator) (op : Operator) (threshold : ℚ) (tick : Nat) : Prop :=
  (g tick).any (op.holds · threshold) = true

instance (g : ValueGenerator) (op : Operator) (threshold : ℚ) :
    DecidablePred (Satisfies g op threshold) :=
  fun tick => inferInstanceAs (Decidable ((g tick).any (op.holds · threshold) = true))

theorem satisfies_some {g : ValueGenerator} {op : Operator} {threshold value : ℚ} {tick : Nat}
    (h : g tick = some value) : Satisfies g op threshold tick ↔ op.holds value threshold = true := by
  rw [Satisfies, h, Option.any_some]

/-- The ticks before a time are those below a count. -/
theorem tick_lt_iff {rate : ℚ} (hrate : 0 < rate) (t : ℚ) (n : Nat) : n / rate < t ↔ n < ⌈t * rate⌉.toNat := by
  rw [div_lt_iff₀ hrate, Int.lt_toNat, Int.lt_ceil, Int.cast_natCast]

theorem le_tick_iff {rate : ℚ} (hrate : 0 < rate) (t : ℚ) (n : Nat) : t ≤ n / rate ↔ ⌈t * rate⌉.toNat ≤ n := by
  rw [← not_lt, tick_lt_iff hrate, not_lt]

/-- Generators of no value, for configurations of none of them. -/
def noOthers : OtherGenerators := ⟨fun _ _ _ _ => none, fun _ _ _ _ _ => none, fun _ _ _ => .ok fun _ => none⟩

/-! ## Parameters -/

section

variable {std : StdParse}

/-- A duration that the compiler and the desugaring read alike. -/
theorem durationOrDefault_ok {input : Option Text} {dflt : Text} {secs defaultSecs : ℚ} {field : String}
    (hdefault : durationToSecs std dflt = .ok defaultSecs)
    (h : durationToSecs std (input.getD dflt) = .ok secs) :
    durationOrDefault std input defaultSecs field = .ok secs := by
  cases input with
  | none => exact congrArg Except.ok (Except.ok.inj (hdefault.symm.trans h))
  | some s =>
    have h : (Sonda.Config.parseDuration std s).map Sonda.Config.asSecs = .ok secs := h
    rw [durationOrDefault, h]
    rfl

theorem offsetOrZero_ok {input : Option Text} {secs : ℚ} {field : String}
    (h : flapPhaseSecs std input = .ok secs) : offsetOrZero std input field = .ok secs := by
  cases input with
  | none => exact congrArg Except.ok (Except.ok.inj h)
  | some s =>
    rw [flapPhaseSecs] at h
    rw [offsetOrZero]
    cases hp : Sonda.Config.parseOffsetDuration std s with
    | error e =>
      rw [hp] at h
      cases h
    | ok d =>
      rw [hp] at h
      cases h
      rfl

end

end Sonda.Compiler
