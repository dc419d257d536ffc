import Mathlib.Tactic.Linarith
import Mathlib.Tactic.NormNum
import Mathlib.Tactic.Ring

/-!
# Non-negative doubles

A finite non-negative binary64 number is a natural number of units of
`2 ^ -1074`, the least positive one, whose bits below the highest 53 are zero
(`Double.rounded`). An operation takes its exact result to the nearest double,
ties to even (`roundUnits`): in order (`roundUnits_mono`), with a relative error
of at most `2 ^ -53` where the result is normal (`roundUnits_error`), and
without one where it is a double (`roundUnits_of_dvd`).
Results of `2 ^ 1024` and more, which overflow, are kept as they are.
-/

namespace Sonda.Framework

open Nat

/-- `a / b` rounded to the nearest natural, ties to even. -/
def roundDiv (a b : Nat) : Nat :=
  let q := a / b
  let r := a % b
  if 2 * r < b then q else if b < 2 * r then q + 1 else q + q % 2

/-- The unit in the last place of a number of `q` units. -/
def ulp (q : Nat) : Nat := 2 ^ (q.log2 - 52)

/-- The double nearest to `a / b` units. -/
def roundUnits (a b : Nat) : Nat := roundDiv a (b * ulp (a / b)) * ulp (a / b)

variable {a b c d m n q : Nat}

/-! ## To the nearest natural -/

theorem roundDiv_le_iff (hb : 0 < b) :
    roundDiv a b ≤ m ↔ 2 * a < (2 * m + 1) * b ∨ 2 * a = (2 * m + 1) * b ∧ m % 2 = 0 := by
  have ha := div_add_mod a b
  have hr := mod_lt a hb
  have hm : (2 * m + 1) * b = 2 * (b * m) + b := by ring
  rw [hm, roundDiv]
  generalize a / b = q at *
  rcases lt_trichotomy q m with h | rfl | h
  · have hle : b * (q + 1) ≤ b * m := mul_le_mul_left b h
    rw [mul_add] at hle
    split <;> [omega; split <;> omega]
  · split <;> [omega; split <;> omega]
  · have hle : b * (m + 1) ≤ b * q := mul_le_mul_left b h
    rw [mul_add] at hle
    split <;> [omega; split <;> omega]

theorem roundDiv_mono (hb : 0 < b) (hd : 0 < d) (h : a * d ≤ c * b) :
    roundDiv a b ≤ roundDiv c d := by
  refine (roundDiv_le_iff hb).mpr ?_
  generalize hm : roundDiv c d = m
  rcases (roundDiv_le_iff hd).mp hm.le with hc | ⟨hc, heven⟩
  · exact .inl (by nlinarith)
  · have hle : 2 * a ≤ (2 * m + 1) * b := by nlinarith
    rcases hle.lt_or_eq with hlt | heq
    · exact .inl hlt
    · exact .inr ⟨heq, heven⟩

theorem roundDiv_mul (hb : 0 < b) (m : Nat) : roundDiv (m * b) b = m := by
  simp [roundDiv, hb]

/-- The error is at most a half. -/
theorem roundDiv_spec (hb : 0 < b) :
    2 * (roundDiv a b * b) ≤ 2 * a + b ∧ 2 * a ≤ 2 * (roundDiv a b * b) + b := by
  have ha := div_add_mod a b
  have hr := mod_lt a hb
  rw [roundDiv]
  generalize a / b = q at *
  have h₀ : (q + 0) * b = b * q := by ring
  have h₁ : (q + 1) * b = b * q + b := by ring
  split
  · rw [mul_comm q b]; omega
  · split
    · omega
    · rcases mod_two_eq_zero_or_one q with e | e <;> rw [e] <;> omega

theorem roundDiv_eq (hb : 0 < b) (h₁ : 2 * (m * b) < 2 * a + b) (h₂ : 2 * a < 2 * (m * b) + b) :
    roundDiv a b = m := by
  obtain ⟨hl, hu⟩ := roundDiv_spec (a := a) hb
  generalize roundDiv a b = r at *
  have hm : m < r + 1 := Nat.lt_of_mul_lt_mul_right (a := b) (by rw [add_mul]; omega)
  have hr : r < m + 1 := Nat.lt_of_mul_lt_mul_right (a := b) (by rw [add_mul]; omega)
  omega

/-! ## To the nearest double -/

theorem ulp_pos (q : Nat) : 0 < ulp q := Nat.pow_pos (by decide)

theorem ulp_dvd_ulp (h : q ≤ n) : ulp q ∣ ulp n := by
  refine Nat.pow_dvd_pow 2 (Nat.sub_le_sub_right ?_ 52)
  rcases q.eq_zero_or_pos with rfl | hq
  · simp
  · exact (le_log2 (by omega)).mpr ((log2_self_le (by omega)).trans h)

/-- A number has at most 53 bits from its last place on. -/
theorem lt_ulp (q : Nat) : q < 2 ^ 53 * ulp q := by
  rw [ulp, ← Nat.pow_add]
  exact lt_log2_self.trans_le (Nat.pow_le_pow_right (by decide) (by omega))

/-- A normal number has 53. -/
theorem ulp_le (h : 2 ^ 52 ≤ q) : 2 ^ 52 * ulp q ≤ q := by
  have hlog : 52 ≤ q.log2 := (le_log2 (by omega)).mpr h
  rw [ulp, ← Nat.pow_add, show 52 + (q.log2 - 52) = q.log2 by omega]
  exact log2_self_le (by omega)

/-- A number with at most 53 bits before `k` zeros is a double. -/
theorem ulp_dvd (k : Nat) (h : m < 2 ^ 53) : ulp (m * 2 ^ k) ∣ m * 2 ^ k := by
  rcases m.eq_zero_or_pos with rfl | hm
  · simp
  have hne : m * 2 ^ k ≠ 0 := (Nat.mul_pos hm (Nat.pow_pos (by decide))).ne'
  have hlog : (m * 2 ^ k).log2 < 53 + k := (log2_lt hne).mpr (by
    rw [Nat.pow_add]
    exact Nat.mul_lt_mul_of_pos_right h (Nat.pow_pos (by decide)))
  exact (Nat.pow_dvd_pow 2 (by omega)).mul_left m

theorem roundDiv_le_pow (a b : Nat) : roundDiv a (b * ulp (a / b)) ≤ 2 ^ 53 := by
  rcases b.eq_zero_or_pos with rfl | hb
  · simp only [roundDiv, Nat.zero_mul, Nat.div_zero]
    split <;> [decide; split <;> decide]
  have hlt : a < 2 ^ 53 * ulp (a / b) * b := (Nat.div_lt_iff_lt_mul hb).mp (lt_ulp (a / b))
  rw [roundDiv_le_iff (Nat.mul_pos hb (ulp_pos _))]
  exact .inl (by nlinarith)

theorem roundUnits_dvd (a b : Nat) : ulp (roundUnits a b) ∣ roundUnits a b := by
  rcases (roundDiv_le_pow a b).lt_or_eq with h | h
  · exact ulp_dvd _ h
  · rw [roundUnits, h, ulp.eq_1 (a / b), ← Nat.pow_add, ← one_mul (2 ^ _)]
    exact ulp_dvd _ (by decide)

/-- A double is not changed. -/
theorem roundUnits_of_dvd (hb : 0 < b) (h : ulp q ∣ q) : roundUnits (q * b) b = q := by
  obtain ⟨m, hm⟩ := h
  rw [roundUnits, Nat.mul_div_cancel q hb]
  nth_rewrite 1 [hm]
  rw [show ulp q * m * b = m * (b * ulp q) by ring, roundDiv_mul (Nat.mul_pos hb (ulp_pos q)),
    mul_comm, ← hm]

@[simp]
theorem roundUnits_zero (b : Nat) : roundUnits 0 b = 0 := by simp [roundUnits, roundDiv]

theorem roundUnits_mono (hb : 0 < b) (hd : 0 < d) (h : a * d ≤ c * b) :
    roundUnits a b ≤ roundUnits c d := by
  have hdiv : a / b ≤ c / d := by
    rw [Nat.le_div_iff_mul_le hd]
    have := div_mul_le_self a b
    nlinarith
  have hle : ulp (a / b) ≤ ulp (c / d) := le_of_dvd (ulp_pos _) (ulp_dvd_ulp hdiv)
  have hpos := ulp_pos (a / b)
  rcases hle.eq_or_lt with e | hlt
  · rw [roundUnits, roundUnits, ← e]
    refine mul_le_mul_right _ (roundDiv_mono (Nat.mul_pos hb hpos) (Nat.mul_pos hd hpos) ?_)
    nlinarith
  -- the last places differ, so there is a power of two between the two numbers
  · have htwice : 2 * ulp (a / b) ≤ ulp (c / d) := by
      rw [mul_comm, ulp, ulp, ← Nat.pow_succ]
      exact Nat.pow_le_pow_right (by decide) ((Nat.pow_lt_pow_iff_right (by decide)).mp hlt)
    have hbig : 2 ^ 52 * ulp (c / d) ≤ c / d := ulp_le (by
      by_contra hsmall
      have hlog : (c / d).log2 - 52 = 0 := by
        rcases Nat.eq_zero_or_pos (c / d) with e | hq
        · simp [e]
        · have := (log2_lt hq.ne').mpr (not_le.mp hsmall)
          omega
      rw [ulp.eq_1 (c / d), hlog] at hlt
      omega)
    calc roundUnits a b ≤ 2 ^ 53 * ulp (a / b) := mul_le_mul_right _ (roundDiv_le_pow a b)
      _ ≤ 2 ^ 52 * ulp (c / d) := by omega
      _ ≤ roundUnits c d := by
        refine mul_le_mul_right _ ?_
        have hc := (Nat.le_div_iff_mul_le hd).mp hbig
        rw [← roundDiv_mul (Nat.mul_pos hd (ulp_pos (c / d))) (2 ^ 52)]
        refine roundDiv_mono (Nat.mul_pos hd (ulp_pos _)) (Nat.mul_pos hd (ulp_pos _)) ?_
        exact mul_le_mul_right _ (by rwa [mul_comm d, ← mul_assoc])

theorem roundUnits_congr (hb : 0 < b) (hd : 0 < d) (h : a * d = c * b) :
    roundUnits a b = roundUnits c d :=
  le_antisymm (roundUnits_mono hb hd h.le) (roundUnits_mono hd hb h.ge)

/-- A result that is zero or normal differs from the exact one by `2 ^ -53` of it at most. -/
theorem roundUnits_error (hb : 0 < b) (h : a = 0 ∨ 2 ^ 52 * b ≤ a) :
    2 ^ 53 * (roundUnits a b * b) ≤ 2 ^ 53 * a + a ∧
      2 ^ 53 * a ≤ 2 ^ 53 * (roundUnits a b * b) + a := by
  rcases h with rfl | h
  · simp
  have hulp := (Nat.le_div_iff_mul_le hb).mp (ulp_le ((Nat.le_div_iff_mul_le hb).mpr h))
  have hspec := roundDiv_spec (a := a) (Nat.mul_pos hb (ulp_pos (a / b)))
  rw [mul_assoc, mul_comm _ b] at hulp
  rw [roundUnits, mul_assoc, mul_comm _ b]
  omega

/-! ## Doubles -/

/-- A finite non-negative binary64 number. -/
structure Double where
  units : Nat
  rounded : ulp units ∣ units

namespace Double

/-- The next double is one last place further. -/
theorem add_ulp_le (y : Double) {x : Nat} (hx : ulp x ∣ x) (h : x < y.units) :
    x + ulp x ≤ y.units := by
  have hdvd : ulp x ∣ y.units - x := Nat.dvd_sub ((ulp_dvd_ulp h.le).trans y.rounded) hx
  have := le_of_dvd (by omega) hdvd
  omega

/-- The units of 1. -/
@[irreducible]
def one : Nat := 2 ^ 1074

theorem one_pos : 0 < one := by decide +kernel

/-- The double nearest to `a / b` units. -/
def round (a b : Nat) : Double := ⟨roundUnits a b, roundUnits_dvd a b⟩

def ofNat (n : Nat) : Double := round (n * one) 1

instance (n : Nat) : OfNat Double n := ⟨ofNat n⟩

def add (x y : Double) : Double := round (x.units + y.units) 1

/-- The difference of a number and one that is no larger. -/
def sub (x y : Double) : Double := round (x.units - y.units) 1

def mul (x y : Double) : Double := round (x.units * y.units) one

/-- The quotient of a number and one that is not zero. -/
def div (x y : Double) : Double := round (x.units * one) y.units

/-- The remainder of a division is a double, so it is exact. -/
def rem (x y : Double) : Double where
  units := x.units % y.units
  rounded := by
    rcases Nat.eq_zero_or_pos y.units with hy | hy
    · rw [hy, Nat.mod_zero]; exact x.rounded
    rcases Nat.lt_or_ge x.units y.units with h | h
    · rw [Nat.mod_eq_of_lt h]; exact x.rounded
    · refine (ulp_dvd_ulp (mod_lt x.units hy).le).trans ?_
      exact (Nat.dvd_mod_iff y.rounded).mpr ((ulp_dvd_ulp h).trans x.rounded)

theorem ofNat_units {n : Nat} (h : n < 2 ^ 53) : (ofNat n).units = n * one := by
  obtain ⟨k, hk⟩ : ∃ k, one = 2 ^ k := ⟨1074, by decide +kernel⟩
  have hdvd : ulp (n * one) ∣ n * one := hk ▸ ulp_dvd k h
  simpa [ofNat, round] using roundUnits_of_dvd (by decide : 0 < 1) hdvd

end Double

end Sonda.Framework
