import Mathlib.Data.Nat.Bitwise
import Mathlib.Tactic.Common

/-!
# Words bit by bit

What is known of the bits of `y` from `y ^ (y >> s)` grows from the top
(`testBit_round`).

`leastXor b l c` walks `b` bits from the top for the least `i ^ c` over the `i` that
are at most `l`: one of them gives it (`exists_leastXor`) and none gives less
(`leastXor_le`).
-/

namespace Sonda.Framework

open Nat

/-! ## Shifts -/

/-- A round of undoing `y ^ (y >> s)` settles `s` more of the top bits. -/
theorem testBit_round {w s known x y i : Nat}
    (h : ∀ i, w ≤ i + known → x.testBit i = y.testBit i) (hi : w ≤ i + (known + s)) :
    ((y ^^^ y >>> s) ^^^ x >>> s).testBit i = y.testBit i := by
  simp only [testBit_xor, testBit_shiftRight, h (s + i) (by omega), Bool.xor_assoc, Bool.xor_self,
    Bool.xor_false]

/-! ## The least exclusive or -/

/-- The least `i ^ c` over `i ≤ l`, on the lowest `b` bits of `l` and `c`. -/
def leastXor : (b : Nat) → (l c : Nat) → Nat
  | 0, _, _ => 0
  | b + 1, l, c =>
    if c.testBit b then if l.testBit b then leastXor b l c else 2 ^ b + leastXor b l c
    else if l.testBit b then 0 else leastXor b l c

/-- The top bit and the rest of the lowest bits of a number. -/
theorem mod_two_pow_succ (n b : Nat) :
    n % 2 ^ (b + 1) = (n.testBit b).toNat * 2 ^ b + n % 2 ^ b := by
  rw [pow_succ, mod_mul, toNat_testBit, mul_comm, add_comm]

/-- Exclusive or, on the top bits and the rest apart. -/
theorem xor_top {b i c : Nat} (hi : i < 2 ^ b) (hc : c < 2 ^ b) (x y : Nat) :
    (x * 2 ^ b + i) ^^^ (y * 2 ^ b + c) = (x ^^^ y) * 2 ^ b + (i ^^^ c) := by
  have hdiv {k j : Nat} (hj : j < 2 ^ b) : (k * 2 ^ b + j) / 2 ^ b = k := by
    rw [Nat.mul_comm, Nat.mul_add_div (Nat.two_pow_pos b), Nat.div_eq_of_lt hj, Nat.add_zero]
  have hmod {k j : Nat} (hj : j < 2 ^ b) : (k * 2 ^ b + j) % 2 ^ b = j := by
    rw [mul_comm, mul_add_mod, mod_eq_of_lt hj]
  have h := div_add_mod ((x * 2 ^ b + i) ^^^ (y * 2 ^ b + c)) (2 ^ b)
  rw [xor_div_two_pow, xor_mod_two_pow, hdiv hi, hdiv hc, hmod hi, hmod hc] at h
  rw [← h, mul_comm]

theorem exists_leastXor (b l c : Nat) : ∃ i ≤ l % 2 ^ b, i ^^^ c % 2 ^ b = leastXor b l c := by
  induction b with
  | zero => exact ⟨0, zero_le _, by simp [leastXor, mod_one]⟩
  | succ b ih =>
    obtain ⟨i, hi, heq⟩ := ih
    have hl : l % 2 ^ b < 2 ^ b := Nat.mod_lt _ (Nat.two_pow_pos b)
    have hc : c % 2 ^ b < 2 ^ b := Nat.mod_lt _ (Nat.two_pow_pos b)
    have hx := xor_top (lt_of_le_of_lt hi hl) hc
    rw [mod_two_pow_succ l, mod_two_pow_succ c, leastXor]
    by_cases hct : c.testBit b = true <;> by_cases hlt : l.testBit b = true <;>
      simp only [hct, hlt, if_true, Bool.toNat_true, Bool.false_eq_true, if_false, Bool.toNat_false]
    · exact ⟨1 * 2 ^ b + i, by omega, by rw [hx, heq, Nat.xor_self, Nat.zero_mul, Nat.zero_add]⟩
    · refine ⟨0 * 2 ^ b + i, by omega, ?_⟩
      rw [hx, heq, zero_xor, one_mul]
    · refine ⟨c % 2 ^ b, by omega, ?_⟩
      rw [Nat.zero_mul, Nat.zero_add, Nat.xor_self]
    · exact ⟨0 * 2 ^ b + i, by omega, by rw [hx, heq, Nat.xor_self, Nat.zero_mul, Nat.zero_add]⟩

theorem leastXor_le (b l c : Nat) : ∀ i ≤ l % 2 ^ b, leastXor b l c ≤ i ^^^ c % 2 ^ b := by
  induction b with
  | zero => exact fun i _ => zero_le _
  | succ b ih =>
    intro i hi
    have hl : l % 2 ^ b < 2 ^ b := Nat.mod_lt _ (Nat.two_pow_pos b)
    have hc : c % 2 ^ b < 2 ^ b := Nat.mod_lt _ (Nat.two_pow_pos b)
    obtain ⟨q, r, hr, rfl⟩ : ∃ q r, r < 2 ^ b ∧ i = q * 2 ^ b + r :=
      ⟨i / 2 ^ b, i % 2 ^ b, Nat.mod_lt _ (Nat.two_pow_pos b), (Nat.div_add_mod' i (2 ^ b)).symm⟩
    rw [mod_two_pow_succ l] at hi
    have hq : q ≤ (l.testBit b).toNat := by
      by_contra hq
      have := Nat.mul_le_mul_right (2 ^ b) (Nat.lt_of_not_le hq)
      rw [succ_mul] at this
      omega
    rw [mod_two_pow_succ c, xor_top hr hc, leastXor]
    by_cases hct : c.testBit b = true <;> by_cases hlt : l.testBit b = true <;>
      simp only [hct, hlt, if_true, Bool.toNat_true, Bool.false_eq_true, if_false, Bool.toNat_false]
        at hi hq ⊢
    · -- an `i` whose top bit is 0 differs from `c` there
      rcases le_one_iff_eq_zero_or_eq_one.mp hq with rfl | rfl
      · obtain ⟨j, hj, heq⟩ := exists_leastXor b l c
        have := xor_lt_two_pow (lt_of_le_of_lt hj hl) hc
        rw [zero_xor]
        omega
      · have := ih r (by omega)
        omega
    · obtain rfl := le_zero.mp hq
      have := ih r (by omega)
      rw [zero_xor]
      omega
    · exact zero_le _
    · have := ih r (by omega)
      omega

end Sonda.Framework
