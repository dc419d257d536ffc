import Mathlib.Data.Nat.Size
import Mathlib.Tactic.Common
import Mathlib.Tactic.Ring

/-!
# Numbers as digits, the most significant first

`beDigits B k n` is the `k` lowest digits of `n` in base `B`, and `ofBe B` the
number some digits stand for, read as a decoder reads them, one after the
other. Reading what was written gives the number back, as far as `k` digits
hold it (`foldl_beDigits`). `digitCount b n` is how many digits `n` takes in
base `2 ^ b`: enough to hold it (`lt_pow_digitCount`), and no more than that
(`pow_digitCount_le`).
-/

namespace Sonda.Framework

open Nat List

/-- The `k` lowest digits of `n` in base `B`, the most significant first. -/
def beDigits (B : Nat) : Nat → Nat → List Nat
  | 0, _ => []
  | k + 1, n => n / B ^ k % B :: beDigits B k n

/-- One more digit is read. -/
def pushDigit (B acc d : Nat) : Nat := acc * B + d

/-- The number the digits stand for. -/
def ofBe (B : Nat) (ds : List Nat) : Nat := ds.foldl (pushDigit B) 0

/-- The digits of `n` in base `2 ^ b`. -/
def digitCount (b n : Nat) : Nat := (n.size + (b - 1)) / b

variable {B : Nat}

@[simp]
theorem length_beDigits (B k n : Nat) : (beDigits B k n).length = k := by
  induction k with
  | zero => rfl
  | succ k ih => rw [beDigits, length_cons, ih]

theorem lt_of_mem_beDigits (hB : 0 < B) {k n d : Nat} (h : d ∈ beDigits B k n) : d < B := by
  induction k with
  | zero => cases h
  | succ k ih =>
    rw [beDigits, mem_cons] at h
    rcases h with rfl | h
    · exact mod_lt _ hB
    · exact ih h

theorem foldl_pushDigit (a : Nat) (ds : List Nat) :
    ds.foldl (pushDigit B) a = a * B ^ ds.length + ofBe B ds := by
  unfold ofBe
  induction ds generalizing a with
  | nil => simp
  | cons d ds ih =>
    rw [foldl_cons, ih, foldl_cons, ih (pushDigit B 0 d), length_cons, pow_succ]
    simp only [pushDigit]
    ring

/-- Reading `k` digits of `n` after `a`. -/
theorem foldl_beDigits (a k n : Nat) :
    (beDigits B k n).foldl (pushDigit B) a = a * B ^ k + n % B ^ k := by
  induction k generalizing a with
  | zero => simp [beDigits, mod_one]
  | succ k ih =>
    have hsplit := mod_mul (x := n) (a := B ^ k) (b := B)
    rw [beDigits, foldl_cons, ih, pow_succ, hsplit]
    simp only [pushDigit]
    ring

theorem ofBe_beDigits {k n : Nat} (h : n < B ^ k) : ofBe B (beDigits B k n) = n := by
  rw [ofBe, foldl_beDigits, mod_eq_of_lt h, zero_mul, zero_add]

theorem ofBe_lt (hB : 0 < B) {ds : List Nat} (h : ∀ d ∈ ds, d < B) : ofBe B ds < B ^ ds.length := by
  induction ds with
  | nil => exact one_pos
  | cons d ds ih =>
    have hd := h d mem_cons_self
    have hds := ih fun x hx => h x (mem_cons_of_mem _ hx)
    rw [ofBe, foldl_cons, foldl_pushDigit, length_cons, pow_succ]
    have hle : pushDigit B 0 d * B ^ ds.length ≤ (B - 1) * B ^ ds.length :=
      mul_le_mul_right _ (by simp only [pushDigit]; omega)
    have hsplit : B ^ ds.length * B = (B - 1) * B ^ ds.length + B ^ ds.length := by
      rw [← Nat.succ_mul, Nat.succ_eq_add_one, Nat.sub_add_cancel hB, Nat.mul_comm]
    omega

/-- The digits of a number are those it was read from. -/
theorem beDigits_ofBe (hB : 0 < B) {ds : List Nat} (h : ∀ d ∈ ds, d < B) :
    beDigits B ds.length (ofBe B ds) = ds := by
  induction ds with
  | nil => rfl
  | cons d ds ih =>
    have hd := h d mem_cons_self
    have hrest : ∀ x ∈ ds, x < B := fun x hx => h x (mem_cons_of_mem _ hx)
    have hlt := ofBe_lt hB hrest
    have hval : ofBe B (d :: ds) = B ^ ds.length * d + ofBe B ds := by
      rw [ofBe, foldl_cons, foldl_pushDigit]
      simp only [pushDigit]
      ring
    have hlow : ∀ k ≤ ds.length, beDigits B k (ofBe B (d :: ds)) = beDigits B k (ofBe B ds) := by
      intro k hk
      induction k with
      | zero => rfl
      | succ k ihk =>
        rw [beDigits, beDigits, ihk (by omega), hval]
        obtain ⟨m, hm⟩ := Nat.exists_eq_add_of_lt hk
        have hpow : B ^ ds.length = B ^ k * (B * B ^ m) := by
          rw [hm]; ring
        rw [hpow, Nat.mul_assoc, Nat.mul_add_div (Nat.pow_pos hB), Nat.mul_assoc, Nat.mul_add_mod]
    rw [length_cons, beDigits, hlow _ (le_refl _), ih hrest, hval,
      Nat.mul_add_div (Nat.pow_pos hB), Nat.div_eq_of_lt hlt, Nat.add_zero, Nat.mod_eq_of_lt hd]

theorem lt_pow_digitCount {b : Nat} (hb : 0 < b) (n : Nat) : n < (2 ^ b) ^ digitCount b n := by
  rw [← pow_mul, ← size_le, digitCount]
  have := div_add_mod (n.size + (b - 1)) b
  have := mod_lt (n.size + (b - 1)) hb
  omega

theorem digitCount_le {b n k : Nat} (hb : 0 < b) (h : n < (2 ^ b) ^ k) : digitCount b n ≤ k := by
  rw [← pow_mul, ← size_le] at h
  rw [digitCount, div_le_iff_le_mul hb]
  rw [mul_comm k b]
  omega

theorem pow_digitCount_le {b n : Nat} (hb : 0 < b) (hn : 0 < n) :
    (2 ^ b) ^ (digitCount b n - 1) ≤ n := by
  rw [← not_lt]
  intro h
  have hle := digitCount_le hb h
  have hpos : 0 < digitCount b n := by
    have := size_pos.mpr hn
    exact div_pos (by omega) hb
  omega

end Sonda.Framework
