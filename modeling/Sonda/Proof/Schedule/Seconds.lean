import Sonda.Impl.Schedule.Windows

/-!
# Durations in seconds

How far `as_secs_f64` is off (`asSecs_error`). Multiples of less than thirteen days are exact
(`mulF64_eq`), and so are comparisons with whole seconds (`le_asSecs_iff`) and the gaps of whole
seconds (`isInGap_whole`).
-/

namespace Sonda.Proof.Schedule

open Sonda.Schedule Framework Nat
open Double (add div mul ofNat ofNat_units one sub)

variable {t m n d : Nat}

theorem fromSecs_mono {x y : Double} (h : x.units ≤ y.units) : fromSecs x ≤ fromSecs y :=
  roundDiv_mono Double.one_pos Double.one_pos (mul_le_mul_right _ (mul_le_mul_right _ h))

theorem mulF64_mono (h : m ≤ n) : mulF64 d m ≤ mulF64 d n := by
  refine fromSecs_mono (roundUnits_mono Double.one_pos Double.one_pos
    (mul_le_mul_right _ (mul_le_mul_right _ ?_)))
  exact roundUnits_mono (by decide) (by decide) (mul_le_mul_right _ (mul_le_mul_right _ h))

theorem large : 2 ^ 53 * 10 ^ 9 ≤ one := by decide +kernel

theorem asSecs_units (h : t < 2 ^ 53 * 10 ^ 9) : (asSecs t).units =
    roundUnits (t / 10 ^ 9 * one + roundUnits (t % 10 ^ 9 * one) (10 ^ 9)) 1 := by
  have hr : t % 10 ^ 9 < 10 ^ 9 := mod_lt _ (by decide)
  have hdiv : (div (.ofNat (t % 10 ^ 9)) (.ofNat (10 ^ 9))).units =
      roundUnits (t % 10 ^ 9 * one) (10 ^ 9) := by
    rw [div, Double.round, ofNat_units (by omega), ofNat_units (by decide)]
    exact roundUnits_congr (Nat.mul_pos (by decide) Double.one_pos) (by decide) (by ring)
  rw [asSecs, add, Double.round, hdiv, ofNat_units (by omega)]

theorem asSecs_error (h : t < 2 ^ 53 * 10 ^ 9) :
    2 ^ 106 * ((asSecs t).units * 10 ^ 9) ≤ (2 ^ 53 + 1) ^ 2 * (t * one) ∧
      (2 ^ 53 - 1) ^ 2 * (t * one) ≤ 2 ^ 106 * ((asSecs t).units * 10 ^ 9) := by
  rw [asSecs_units h]
  have ht := div_add_mod t (10 ^ 9)
  generalize t / 10 ^ 9 = s at *
  generalize t % 10 ^ 9 = r at *
  have hu := large
  generalize one = u at *
  have hr : r * u = 0 ∨ 2 ^ 53 * 10 ^ 9 ≤ r * u := by
    rcases r.eq_zero_or_pos with rfl | hr
    · simp
    · exact .inr (hu.trans (Nat.le_mul_of_pos_left u hr))
  have hs : s * u = 0 ∨ 2 ^ 53 * 10 ^ 9 ≤ s * u := by
    rcases s.eq_zero_or_pos with rfl | hs
    · simp
    · exact .inr (hu.trans (Nat.le_mul_of_pos_left u hs))
  have hf := roundUnits_error (a := r * u) (b := 10 ^ 9) (by decide) (by omega)
  generalize roundUnits (r * u) (10 ^ 9) = f at *
  have hsum := roundUnits_error (a := s * u + f) (b := 1) (by decide) (by omega)
  generalize roundUnits (s * u + f) 1 = x at *
  have htu : t * u = 10 ^ 9 * (s * u) + r * u := by rw [← ht]; ring
  omega

/-- A multiple of less than thirteen days is exact. -/
theorem mulF64_eq (h : d * n ≤ 2 ^ 50) : mulF64 d n = d * n := by
  rcases n.eq_zero_or_pos with rfl | hn
  · simp [mulF64, fromSecs, mul, Double.round, ofNat, roundUnits, roundDiv, Double.one_pos]
  rcases d.eq_zero_or_pos with rfl | hd
  · have h0 : (asSecs 0).units = 0 := by decide +kernel
    simp [mulF64, fromSecs, mul, Double.round, h0, roundUnits, roundDiv, Double.one_pos]
  have hn' : n ≤ d * n := Nat.le_mul_of_pos_left n hd
  have hd' : d ≤ d * n := Nat.le_mul_of_pos_right d hn
  obtain ⟨h₁, h₂⟩ := asSecs_error (t := d) (by omega)
  rw [mulF64, fromSecs, mul, Double.round, ofNat_units (by omega)]
  dsimp only
  have hu := large
  have hpos := Double.one_pos
  generalize (asSecs d).units = x at *
  generalize one = u at *
  have hx : 2 ^ 52 ≤ x := by
    have : u ≤ d * u := Nat.le_mul_of_pos_left u hd
    omega
  have hmul : roundUnits (n * u * x) u = roundUnits (n * x) 1 :=
    roundUnits_congr hpos (by decide) (by ring)
  have herr := roundUnits_error (a := n * x) (b := 1) (by decide)
    (.inr ((Nat.mul_one _).le.trans (hx.trans (Nat.le_mul_of_pos_left x hn))))
  rw [hmul]
  generalize roundUnits (n * x) 1 = y at *
  have h₁' := mul_le_mul_left n h₁
  have h₂' := mul_le_mul_left n h₂
  have e₁ : n * (2 ^ 106 * (x * 10 ^ 9)) = 2 ^ 106 * (10 ^ 9 * (n * x)) := by ring
  have e₂ : n * ((2 ^ 53 + 1) ^ 2 * (d * u)) = (2 ^ 53 + 1) ^ 2 * (d * n * u) := by ring
  have e₃ : n * ((2 ^ 53 - 1) ^ 2 * (d * u)) = (2 ^ 53 - 1) ^ 2 * (d * n * u) := by ring
  have hbound : d * n * u ≤ 2 ^ 50 * u := mul_le_mul_right u h
  exact roundDiv_eq hpos (by omega) (by omega)

/-- Before 26 days an instant has passed a whole second exactly if its seconds have. -/
theorem le_asSecs_iff {k : Nat} (h : t ≤ 2 ^ 51) :
    k * one ≤ (asSecs t).units ↔ k * 10 ^ 9 ≤ t := by
  constructor
  · intro hk
    by_contra hlt
    have herr := (asSecs_error (t := t) (by omega)).1
    have hk' := mul_le_mul_left (2 ^ 106 * 10 ^ 9) hk
    have hpos := Double.one_pos
    generalize (asSecs t).units = x at *
    generalize one = u at *
    have ht : t * u + u ≤ 10 ^ 9 * (k * u) := by
      calc t * u + u = (t + 1) * u := by ring
        _ ≤ k * 10 ^ 9 * u := mul_le_mul_right u (by omega)
        _ = 10 ^ 9 * (k * u) := by ring
    have hsmall : t * u ≤ 2 ^ 51 * u := mul_le_mul_right u h
    omega
  · intro hk
    rw [asSecs_units (by omega)]
    have hs : k ≤ t / 10 ^ 9 := (Nat.le_div_iff_mul_le (by decide)).mpr hk
    have hlt : k < 2 ^ 53 := by omega
    calc k * one = roundUnits (k * one) 1 := (ofNat_units hlt).symm
      _ ≤ _ := roundUnits_mono (by decide) (by decide) (mul_le_mul_right 1 ?_)
    exact (mul_le_mul_right _ hs).trans (le_add_right _ _)

/-- The recurring gap of the documentation: the last `duration` of every `every`. -/
def InGap (elapsed : Nat) (gap : GapWindow) : Prop := gap.every - gap.duration ≤ elapsed % gap.every

theorem asSecs_whole {k : Nat} (h : k < 2 ^ 53) : (asSecs (k * 10 ^ 9)).units = k * one := by
  rw [asSecs_units (by omega), Nat.mul_div_cancel _ (by decide), Nat.mul_mod_left, zero_mul,
    roundUnits_zero, add_zero]
  exact ofNat_units h

/-- Before 26 days the source finds a gap of whole seconds where it is. -/
theorem isInGap_whole {gap : GapWindow} {every duration : Nat} (he : gap.every = every * 10 ^ 9)
    (hd : gap.duration = duration * 10 ^ 9) (hlong : every < 2 ^ 53) (h : t ≤ 2 ^ 51) :
    isInGap t gap = true ↔ InGap t gap := by
  have hlt := gap.lt
  have hsub : (sub (asSecs gap.every) (asSecs gap.duration)).units =
      (every - duration) * one := by
    rw [sub, Double.round, he, hd, asSecs_whole hlong, asSecs_whole (by omega), ← Nat.sub_mul]
    exact ofNat_units (by omega)
  have hwhole : (asSecs t).units / one = t / 10 ^ 9 := by
    refine le_antisymm ?_ ?_
    · rw [Nat.le_div_iff_mul_le (by decide), ← le_asSecs_iff h]
      exact div_mul_le_self _ _
    · rw [Nat.le_div_iff_mul_le Double.one_pos, le_asSecs_iff h]
      exact div_mul_le_self _ _
  have hpos : (cyclePos t gap.every).units = (asSecs t).units % (every * one) := by
    change _ % (asSecs gap.every).units = _
    rw [he, asSecs_whole hlong]
  rw [isInGap, InGap, decide_eq_true_eq, hsub, hpos, he, hd, ← Nat.sub_mul]
  rw [← Nat.le_div_iff_mul_le Double.one_pos, ← Nat.le_div_iff_mul_le (by decide : 0 < 10 ^ 9),
    mul_comm every, mul_comm every, Nat.mod_mul_right_div_self, Nat.mod_mul_right_div_self, hwhole]

end Sonda.Proof.Schedule
