import Mathlib.Algebra.Order.Floor.Ring
import Mathlib.Data.Int.GCD
import Mathlib.Data.Rat.Floor
import Mathlib.Tactic.FieldSimp
import Mathlib.Tactic.Positivity

/-!
# Residues of multiples

`residue x m` is what `x` is above a multiple of `m`. The residues of the multiples of
`s` are themselves multiples of a common measure of `s` and `m` (`measure`): none is
above `m - measure s m` (`residue_le`), and one of them is that (`exists_residue`).
-/

namespace Sonda.Framework

variable {m x : ℚ} {T : ℤ}

/-- `x` modulo `m`. -/
def residue (x m : ℚ) : ℚ := x - m * ⌊x / m⌋

/-- The largest number that both are whole multiples of. -/
def measure (s m : ℚ) : ℚ := (Int.gcd (s.num * m.den) (m.num * s.den) : ℚ) / (s.den * m.den)

theorem residue_nonneg (hm : 0 < m) : 0 ≤ residue x m := by
  have h := Int.floor_le (x / m)
  rw [le_div_iff₀ hm] at h
  unfold residue
  linarith

theorem residue_lt (hm : 0 < m) : residue x m < m := by
  have h := Int.lt_floor_add_one (x / m)
  rw [div_lt_iff₀ hm] at h
  unfold residue
  linarith

theorem residue_of_lt (hx : 0 ≤ x) (h : x < m) : residue x m = x := by
  have hm : 0 < m := lt_of_le_of_lt hx h
  have hfloor : ⌊x / m⌋ = 0 := Int.floor_eq_zero_iff.mpr ⟨div_nonneg hx hm.le, (div_lt_one hm).mpr h⟩
  rw [residue, hfloor, Int.cast_zero, mul_zero, sub_zero]

theorem residue_le_self (hx : 0 ≤ x) (hm : 0 < m) : residue x m ≤ x := by
  have hfloor : (0 : ℚ) ≤ ⌊x / m⌋ := by exact_mod_cast Int.floor_nonneg.2 (div_nonneg hx hm.le)
  have := mul_nonneg hm.le hfloor
  rw [residue]
  linarith

theorem residue_mul {r : ℚ} (hr : r ≠ 0) : residue (x * r) (m * r) = residue x m * r := by
  rw [residue, residue, mul_div_mul_right x m hr]
  ring

/-! ## Over the integers -/

/-- Residues of multiples of `S` stay a common divisor below `T`. -/
theorem emod_le (S : ℤ) (hT : 0 < T) (n : ℤ) : n * S % T ≤ T - Int.gcd S T := by
  obtain ⟨k, hk⟩ : (Int.gcd S T : ℤ) ∣ T := Int.gcd_dvd_right ..
  obtain ⟨j, hj⟩ : (Int.gcd S T : ℤ) ∣ n * S % T := by
    rw [Int.emod_def]
    exact dvd_sub (Dvd.dvd.mul_left (Int.gcd_dvd_left ..) n) (Dvd.dvd.mul_right (Int.gcd_dvd_right ..) _)
  have hlt := Int.emod_lt_of_pos (n * S) hT
  have hg : 0 < (Int.gcd S T : ℤ) := by
    rw [Int.natCast_pos]
    exact Int.gcd_pos_of_ne_zero_right S hT.ne'
  have hjk : j + 1 ≤ k := by
    by_contra hcon
    have := mul_le_mul_of_nonneg_left (show k ≤ j by omega) hg.le
    omega
  have := mul_le_mul_of_nonneg_left hjk hg.le
  rw [mul_add, mul_one, ← hk, ← hj] at this
  omega

/-- A multiple of `S` has the largest residue. -/
theorem exists_emod (S : ℤ) (hT : 0 < T) : ∃ n : ℕ, (n : ℤ) * S % T = T - Int.gcd S T := by
  have hg : 0 < (Int.gcd S T : ℤ) := by
    rw [Int.natCast_pos]
    exact Int.gcd_pos_of_ne_zero_right S hT.ne'
  have hgT : (Int.gcd S T : ℤ) ≤ T := Int.le_of_dvd hT (Int.gcd_dvd_right ..)
  refine ⟨(-Int.gcdA S T % T).toNat, ?_⟩
  rw [Int.toNat_of_nonneg (Int.emod_nonneg _ hT.ne'), Int.mul_emod, Int.emod_emod, ← Int.mul_emod]
  have hbezout := Int.gcd_eq_gcd_ab S T
  have hcong : -Int.gcdA S T * S = (T - Int.gcd S T) + T * (Int.gcdB S T - 1) := by
    rw [hbezout]
    ring
  rw [hcong, Int.add_mul_emod_self_left, Int.emod_eq_of_lt (by omega) (by omega)]

/-! ## Over the rationals -/

/-- Residues of fractions with one denominator are those of the numerators. -/
theorem residue_div (a : ℤ) {b : ℤ} (hb : 0 < b) {q : ℚ} (hq : 0 < q) :
    residue (a / q) (b / q) = ((a % b : ℤ) : ℚ) / q := by
  have hbq : (0 : ℚ) < b := by exact_mod_cast hb
  have hsplit : (a : ℚ) = b * ((a / b : ℤ) : ℚ) + ((a % b : ℤ) : ℚ) := by
    exact_mod_cast (Int.mul_ediv_add_emod a b).symm
  have hlow : (0 : ℚ) ≤ ((a % b : ℤ) : ℚ) := by exact_mod_cast Int.emod_nonneg a hb.ne'
  have hhigh : ((a % b : ℤ) : ℚ) < b := by exact_mod_cast Int.emod_lt_of_pos a hb
  have hfloor : ⌊(a / q) / (b / q)⌋ = a / b := by
    rw [div_div_div_cancel_right₀ hq.ne', Int.floor_eq_iff, le_div_iff₀ hbq, div_lt_iff₀ hbq]
    constructor
    · linarith
    · linarith
  rw [residue, hfloor, eq_div_iff hq.ne', sub_mul, div_mul_cancel₀ _ hq.ne', mul_right_comm,
    div_mul_cancel₀ _ hq.ne']
  linarith

theorem dens_pos (s m : ℚ) : (0 : ℚ) < s.den * m.den :=
  mul_pos (Nat.cast_pos.mpr s.den_pos) (Nat.cast_pos.mpr m.den_pos)

theorem num_den_pos (s : ℚ) (hm : 0 < m) : 0 < m.num * s.den :=
  mul_pos (Rat.num_pos.mpr hm) (by exact_mod_cast s.den_pos)

theorem residue_eq_emod (s : ℚ) (hm : 0 < m) (n : ℕ) :
    residue (n * s) m = ((n * (s.num * m.den) % (m.num * s.den) : ℤ) : ℚ) / (s.den * m.den) := by
  rw [← residue_div _ (num_den_pos s hm) (dens_pos s m)]
  congr 1
  · conv_lhs => rw [← Rat.num_div_den s]
    push_cast
    field_simp
  · conv_lhs => rw [← Rat.num_div_den m]
    push_cast
    field_simp

/-- The largest residue, over the common denominator. -/
theorem sub_measure (s m : ℚ) : m - measure s m =
    ((m.num * s.den - Int.gcd (s.num * m.den) (m.num * s.den) : ℤ) : ℚ) / (s.den * m.den) := by
  have hne := (dens_pos s m).ne'
  have hm : m * (s.den * m.den) = m.num * s.den := by rw [mul_left_comm, Rat.mul_den_eq_num, mul_comm]
  rw [measure, eq_div_iff hne, sub_mul, hm, div_mul_cancel₀ _ hne]
  push_cast
  rfl

theorem measure_pos (s : ℚ) (hm : 0 < m) : 0 < measure s m := by
  refine div_pos ?_ (dens_pos s m)
  exact_mod_cast Int.gcd_pos_of_ne_zero_right (s.num * m.den) (num_den_pos s hm).ne'

theorem residue_le (s : ℚ) (hm : 0 < m) (n : ℕ) : residue (n * s) m ≤ m - measure s m := by
  rw [residue_eq_emod s hm, sub_measure, div_le_div_iff_of_pos_right (dens_pos s m)]
  exact_mod_cast emod_le (s.num * m.den) (num_den_pos s hm) n

theorem exists_residue (s : ℚ) (hm : 0 < m) : ∃ n : ℕ, residue (n * s) m = m - measure s m := by
  obtain ⟨n, hn⟩ := exists_emod (s.num * m.den) (num_den_pos s hm)
  exact ⟨n, by rw [residue_eq_emod s hm, hn, sub_measure]⟩

end Sonda.Framework
